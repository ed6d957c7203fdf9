import FileQuery.Json.Printer
import FileQuery.Yaml.Text

/-! Writing YAML documents: entries in the order of their keys, one a line, two blanks a level, in
ASCII. A text is plain if it reads back as itself, else in single quotes, else in double ones; lines
are folded at a blank once they have more than eighty characters. -/
set_option autoImplicit false
namespace FileQuery.Yaml

open Json (Value)

def isAsciiPrintable (c : Char) : Bool := decide (' ' ≤ c) && decide (c ≤ '~')

def needsNoEscape (c : Char) : Bool := isAsciiPrintable c || c == '\n'

def lineEnds : List Char := ['\n', '\u0085', '\u2028', '\u2029']

def endsWord (c : Char) : Bool := ['\x00', ' ', '\t', '\r'].contains c || lineEnds.contains c

def headMarks : List Char :=
  ['#', ',', '[', ']', '\x7b', '\x7d', '&', '*', '!', '|', '>', '\'', '"', '%', '@', '\x60']

def hasMark (afterBlank : Bool) : List Char → Bool
  | [] => false
  | c :: r =>
    (c == ':' && r.head?.all endsWord) || (c == '#' && afterBlank) || hasMark (endsWord c) r

def hasIndicator (s : List Char) : Bool :=
  match s with
  | [] => false
  | c :: r =>
    "---".toList.isPrefixOf s || "...".toList.isPrefixOf s || headMarks.contains c ||
      (['?', ':', '-'].contains c && r.head?.all endsWord) || hasMark (endsWord c) r

def hasBlankAfterBreak : List Char → Bool
  | '\n' :: ' ' :: _ => true
  | _ :: r => hasBlankAfterBreak r
  | [] => false

def hasBreakAfterBlank : List Char → Bool
  | ' ' :: '\n' :: _ => true
  | _ :: r => hasBreakAfterBlank r
  | [] => false

def hasAtEnds (c : Char) (s : List Char) : Bool := s.head? == some c || s.getLast? == some c

inductive Style where
  | plain
  | single
  | double
  deriving DecidableEq, Repr

def styleOf (asKey : Bool) (s : List Char) : Style :=
  let onLines := s.contains '\n'
  if !(s.all needsNoEscape) || hasBreakAfterBlank s then .double
  else if !s.isEmpty && !onLines && isText s && !hasAtEnds ' ' s && !hasIndicator s then .plain
  else if hasBlankAfterBreak s || (asKey && onLines) then .double
  else .single

/-! Folding. Each function writes from a column and folds to an indent. -/

def width : Nat := 80

def blanks (n : Nat) : List Char := List.replicate n ' '

def runs : List Char → List (List Char)
  | [] => []
  | c :: r =>
    match runs r with
    | (d :: w) :: ws =>
      if (c == ' ') == (d == ' ') && c != '\n' && d != '\n' || (c == '\n' && d == '\n') then
        (c :: d :: w) :: ws
      else [c] :: (d :: w) :: ws
    | ws => [c] :: ws

def foldPlain (fold : Bool) (indent : Nat) : Nat → List (List Char) → List Char
  | _, [] => []
  | column, w :: ws =>
    if w = [' '] ∧ fold ∧ width < column then
      '\n' :: blanks indent ++ foldPlain fold indent indent ws
    else w ++ foldPlain fold indent (column + w.length) ws

/-- The inside of single quotes: a quote is written twice, a break once more than it counts. The
flag tells that nothing stands in front. -/
def foldSingle (fold : Bool) (indent : Nat) : Bool → Nat → List (List Char) → List Char
  | _, _, [] => []
  | first, column, w :: ws =>
    if w = [' '] ∧ fold ∧ width < column ∧ !first ∧ !ws.isEmpty then
      '\n' :: blanks indent ++ foldSingle fold indent false indent ws
    else if w.head? = some '\n' then
      '\n' :: w ++ blanks indent ++ foldSingle fold indent false indent ws
    else
      let text := w.flatMap fun c => if c = '\'' then ['\'', '\''] else [c]
      text ++ foldSingle fold indent false (column + text.length) ws

def escaped (c : Char) : List Char :=
  if isAsciiPrintable c && c != '"' && c != '\\' then [c]
  else match shortEscapes.lookup c with
    | some e => ['\\', e]
    | none => hexEscaped c.toNat
where
  shortEscapes : List (Char × Char) :=
    [('\x00', '0'), ('\x07', 'a'), ('\x08', 'b'), ('\t', 't'), ('\n', 'n'), ('\x0b', 'v'),
     ('\x0c', 'f'), ('\r', 'r'), ('\x1b', 'e'), ('"', '"'), ('\\', '\\'), ('\u0085', 'N'),
     ('\u00a0', '_'), ('\u2028', 'L'), ('\u2029', 'P')]
  hexEscaped (n : Nat) : List Char :=
    let digits (k : Nat) : List Char := (Text.hexDigits k n).map Char.toUpper
    if n < 0x100 then '\\' :: 'x' :: digits 2
    else if n < 0x10000 then '\\' :: 'u' :: digits 4
    else '\\' :: 'U' :: digits 8

/-- The inside of double quotes. `column` is where the characters that are written stand and
`pending` the plain ones since, `done` the count of characters before. A line beyond the width ends
in a backslash at a blank or behind an escape, and a blank that begins a line has one in front. -/
def foldDouble (fold : Bool) (indent : Nat) : Nat → Nat → List Char → List Char → List Char
  | _, _, pending, [] => pending
  | done, column, pending, c :: r =>
    let plain := isAsciiPrintable c && c != '"' && c != '\\'
    let inside := decide (0 < done) && decide (1 ≤ r.length) && fold
    if plain then
      if inside && (c == ' ' || pending.isEmpty) && decide (width < column + pending.length) then
        let mark := if c = ' ' then ['\\'] else []
        pending ++ '\\' :: '\n' :: blanks indent ++ mark ++
          foldDouble fold indent (done + 1) (indent + mark.length) [c] r
      else foldDouble fold indent (done + 1) column (pending ++ [c]) r
    else
      let text := pending ++ escaped c
      let column := column + text.length
      if inside && decide (width + 1 < column) then
        let mark := if r.head? = some ' ' then ['\\'] else []
        text ++ '\\' :: '\n' :: blanks indent ++ mark ++
          foldDouble fold indent (done + 1) (indent + mark.length) [] r
      else text ++ foldDouble fold indent (done + 1) column [] r

def textChars (asKey : Bool) (indent column : Nat) (s : List Char) : List Char :=
  match styleOf asKey s with
  | .plain => foldPlain (!asKey) indent column (runs s)
  | .single => '\'' :: foldSingle (!asKey) indent true (column + 1) (runs s) ++ ['\'']
  | .double => '"' :: foldDouble (!asKey) indent 0 (column + 1) [] s ++ ['"']

def realChars (text : String) : List Char :=
  match text with
  | "Infinity" => ".inf".toList
  | "-Infinity" => "-.inf".toList
  | "NaN" => ".nan".toList
  | text =>
    let cs := text.toList
    if cs.contains '.' then cs
    else cs.flatMap fun c => if c = 'e' then ".0e".toList else [c]

/-- Keys longer than this, empty ones and those on several lines stand behind a mark. -/
def longestKey : Nat := 122

def isSimpleKey (s : List Char) : Bool :=
  !s.isEmpty && decide (s.length ≤ longestKey) && !(s.any lineEnds.contains)

mutual

/-- A value behind a dash or a key, from a column on, in a collection set at an indent. `marked`
tells that it stands behind a mark, where a collection begins on the same line. -/
def below (marked : Bool) (indent column : Nat) : Value → List Char
  | .null => " null".toList
  | .bool b => if b then " true".toList else " false".toList
  | .int n => ' ' :: Json.intText n
  | .real t => ' ' :: realChars t
  | .string s => ' ' :: textChars false (indent + 2) (column + 1) s.toList
  | .array [] => " []".toList
  | .object [] => " \x7b\x7d".toList
  | .array (v :: vs) =>
    if marked then ' ' :: items (indent + 2) (v :: vs)
    else '\n' :: blanks indent ++ items indent (v :: vs)
  | .object (e :: es) =>
    if marked then ' ' :: entries (indent + 2) (e :: es)
    else '\n' :: blanks (indent + 2) ++ entries (indent + 2) (e :: es)

def items (indent : Nat) : List Value → List Char
  | [] => []
  | [v] => '-' :: below true indent (indent + 1) v
  | v :: vs => '-' :: below true indent (indent + 1) v ++ '\n' :: blanks indent ++ items indent vs

def entries (indent : Nat) : List (String × Value) → List Char
  | [] => []
  | [(k, v)] =>
    let (head, marked) := keyChars indent k.toList
    head ++ below marked indent (indent + head.length) v
  | (k, v) :: es =>
    let (head, marked) := keyChars indent k.toList
    head ++ below marked indent (indent + head.length) v ++ '\n' :: blanks indent ++
      entries indent es

def keyChars (indent : Nat) (key : List Char) : List Char × Bool :=
  if isSimpleKey key then (textChars true indent indent key ++ [':'], false)
  else
    ('?' :: ' ' :: textChars false (indent + 2) (indent + 2) key ++ '\n' :: blanks indent ++ [':'],
      true)

end

mutual

def sorted : Value → Value
  | .array vs => .array (sortedItems vs)
  | .object es => .object ((sortedEntries es).mergeSort fun a b => !decide (b.1 < a.1))
  | v => v

def sortedItems : List Value → List Value
  | [] => []
  | v :: vs => sorted v :: sortedItems vs

def sortedEntries : List (String × Value) → List (String × Value)
  | [] => []
  | (k, v) :: es => (k, sorted v) :: sortedEntries es

end

def write (es : List (String × Value)) : String :=
  match sorted (.object es) with
  | .object (e :: es) => String.ofList (entries 0 (e :: es) ++ ['\n'])
  | _ => "\x7b\x7d\n"

end FileQuery.Yaml
