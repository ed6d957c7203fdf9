import FileQuery.Yaml.Plain
import FileQuery.Text.CodePoint

/-! Texts in YAML documents that take more than a word: quoted ones, in which a break of a line
stands for a blank, and blocks of lines. -/
set_option autoImplicit false
namespace FileQuery.Yaml

/-- The blanks and breaks at the head of a text as they count: breaks for one less, a lone one for
a blank, and blanks for themselves if no break follows them. -/
def foldGap (s : List Char) : List Char × List Char :=
  let blanks := s.takeWhile fun c => c == ' ' || c == '\t'
  let rest := skipBlanks s
  if rest.head? = some '\n' then
    let breaks := (rest.takeWhile isBlankOrBreak).count '\n'
    (if breaks = 1 then [' '] else List.replicate (breaks - 1) '\n', rest.dropWhile isBlankOrBreak)
  else (blanks, rest)

/-- What follows the opening quote of a text in single quotes, up to the closing one; a quote is
written twice. The first argument is at least the number of characters. -/
def readSingle? : Nat → List Char → Option (List Char × List Char)
  | 0, _ => none
  | n + 1, s =>
    match s with
    | [] => none
    | '\'' :: '\'' :: r => (readSingle? n r).map fun p => ('\'' :: p.1, p.2)
    | '\'' :: r => some ([], r)
    | c :: r =>
      if isBlankOrBreak c then
        let (gap, rest) := foldGap (c :: r)
        (readSingle? n rest).map fun p => (gap ++ p.1, p.2)
      else (readSingle? n r).map fun p => (c :: p.1, p.2)

def escapes : List (Char × Char) :=
  [('0', '\x00'), ('a', '\x07'), ('b', '\x08'), ('t', '\t'), ('\t', '\t'), ('n', '\n'),
   ('v', '\x0b'), ('f', '\x0c'), ('r', '\r'), ('e', '\x1b'), (' ', ' '), ('"', '"'), ('\\', '\\'),
   ('/', '/'), ('N', '\u0085'), ('_', '\u00a0'), ('L', '\u2028'), ('P', '\u2029')]

def hexWidths : List (Char × Nat) := [('x', 2), ('u', 4), ('U', 8)]

def readHex? (width : Nat) (s : List Char) : Option (List Char × List Char) :=
  let ds := s.take width
  let n := numberIn 16 ds
  if ds.length = width ∧ ds.all (fun c => (Json.hexValue? c).isSome) ∧ n.isValidChar then
    some ([Char.ofNat n], s.drop width)
  else none

/-- What stands for an escape, behind its backslash. At the end of a line it takes the break away. -/
def readEscape? (s : List Char) : Option (List Char × List Char) :=
  match s with
  | [] => none
  | '\n' :: r =>
    some ((r.takeWhile isBlankOrBreak).filter (· == '\n'), r.dropWhile isBlankOrBreak)
  | c :: r =>
    match hexWidths.lookup c with
    | some width => readHex? width r
    | none => (escapes.lookup c).map fun d => ([d], r)

def readDouble? : Nat → List Char → Option (List Char × List Char)
  | 0, _ => none
  | n + 1, s =>
    match s with
    | [] => none
    | '"' :: r => some ([], r)
    | '\\' :: r => do
      let (text, r) ← readEscape? r
      let (rest, r) ← readDouble? n r
      return (text ++ rest, r)
    | c :: r =>
      if isBlankOrBreak c then
        let (gap, rest) := foldGap (c :: r)
        (readDouble? n rest).map fun p => (gap ++ p.1, p.2)
      else (readDouble? n r).map fun p => (c :: p.1, p.2)

def readQuoted? (s : List Char) : Option (List Char × List Char) :=
  match s with
  | '"' :: r => readDouble? (r.length + 1) r
  | '\'' :: r => readSingle? (r.length + 1) r
  | _ => none

/-! Blocks of lines -/

inductive Chomp where
  | strip
  | clip
  | keep
  deriving DecidableEq, Repr

/-- The head of a block: whether its breaks are folded, what becomes of the last ones, and how deep
it is set, if that is said. -/
structure BlockHead where
  folded : Bool
  chomp : Chomp := .clip
  depth : Option Nat := none
  deriving DecidableEq, Repr

def BlockHead.read (folded : Bool) (marks : List Char) : BlockHead :=
  { folded
    chomp := if marks.contains '-' then .strip else if marks.contains '+' then .keep else .clip
    depth := (marks.find? Json.isDigit).map fun c => c.toNat - 48 }

def splitBreaks : List Char → List (List Char)
  | [] => [[]]
  | c :: r =>
    if c = '\n' then [] :: splitBreaks r
    else match splitBreaks r with
      | [] => [[c]]
      | l :: ls => (c :: l) :: ls

def indentOf (line : List Char) : Nat := (line.takeWhile (· == ' ')).length

def isEmptyLine (line : List Char) : Bool := line.all (· == ' ')

/-- The lines of a block without their indent; a line that is not set deep enough ends it. -/
def blockLines (indent : Nat) : List (List Char) → List (List Char)
  | [] => []
  | l :: ls =>
    if indent ≤ indentOf l then l.drop indent :: blockLines indent ls
    else if isEmptyLine l then [] :: blockLines indent ls
    else []

def isIndented (line : List Char) : Bool := line.head? == some ' ' || line.head? == some '\t'

/-- What stands between two lines with so many empty ones between them: a break and one for every
empty line, or a blank in place of a single break that is folded. -/
def blockGap (folded : Bool) (last : List Char) (empty : Nat) (next : List Char) : List Char :=
  if folded && !isIndented last && !isIndented next then
    if empty = 0 then [' '] else List.replicate empty '\n'
  else List.replicate (empty + 1) '\n'

def joinAfter (folded : Bool) (last : List Char) (empty : Nat) : List (List Char) → List Char
  | [] => []
  | l :: ls =>
    if l.isEmpty then joinAfter folded last (empty + 1) ls
    else blockGap folded last empty l ++ l ++ joinAfter folded l 0 ls

def joinBlock (folded : Bool) : List (List Char) → List Char
  | [] => []
  | l :: ls => if l.isEmpty then '\n' :: joinBlock folded ls else l ++ joinAfter folded l 0 ls

/-- The text of a block, from the lines below its head to the end of the document, and what follows
its lines. The depth of the first line that is not empty is that of the block, if it is enough. -/
def readBlock (head : BlockHead) (least : Nat) (s : List Char) : List Char × List Char :=
  let all := splitBreaks s
  let first := ((all.find? fun l => !isEmptyLine l).map indentOf).getD 0
  let indent := match head.depth with
    | some d => least + d - 1
    | none => max least first
  let ls := blockLines indent all
  let rest := List.intercalate ['\n'] (all.drop ls.length)
  let empty := (ls.reverse.takeWhile (·.isEmpty)).length
  let body := ls.take (ls.length - empty)
  let ended := ls.length < all.length ∨ 0 < empty
  let tail := match head.chomp with
    | .strip => []
    | .clip => if ended && !body.isEmpty then ['\n'] else []
    | .keep =>
      List.replicate (if ls.length < all.length then empty + 1 else empty) '\n'
  (joinBlock head.folded body ++ tail, rest)

end FileQuery.Yaml
