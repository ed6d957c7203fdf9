import FileQuery.Yaml.Text

/-! Reading YAML documents: mappings and sequences by indentation or in brackets, texts that are
plain, quoted or in blocks, and notes. Tags, anchors and documents after the first are not read. A
later entry of a mapping replaces an earlier one of the same key in its place. -/
set_option autoImplicit false
namespace FileQuery.Yaml

open Json (Value)

inductive Node where
  | scalar (v : Value)
  | items (vs : List Node)
  | entries (es : List (Value × Node))

def keyText? : Value → Option String
  | .null => some "null"
  | .bool b => some (if b then "true" else "false")
  | .int n => some (toString n)
  | .real t => some t
  | .string s => some s
  | _ => none

def isSameKey : Value → Value → Bool
  | .string s, .string t => s == t
  | .string _, _ | _, .string _ => false
  | k, l => keyText? k == keyText? l

def setEntry (key : Value) (v : Node) : List (Value × Node) → List (Value × Node)
  | [] => [(key, v)]
  | (k, old) :: es => if isSameKey k key then (k, v) :: es else (k, old) :: setEntry key v es

/-- A place in a document: the text from there, its column, and whether only blanks stand in front
of it on its line. -/
structure Spot where
  column : Nat
  fresh : Bool
  text : List Char
  deriving DecidableEq, Repr

def skipFrom (note : Bool) (column : Nat) (fresh : Bool) : List Char → Spot
  | [] => ⟨column, fresh, []⟩
  | c :: r =>
    if c = '\n' then skipFrom false 0 true r
    else if note || c == ' ' || c == '\t' then skipFrom note (column + 1) fresh r
    else if c = '#' then skipFrom true (column + 1) fresh r
    else ⟨column, fresh, c :: r⟩

namespace Spot

def skip (sp : Spot) : Spot := skipFrom false sp.column sp.fresh sp.text

def after (sp : Spot) (rest : List Char) : Spot :=
  let taken := sp.text.take (sp.text.length - rest.length)
  let line := taken.reverse.takeWhile (· != '\n')
  ⟨if taken.contains '\n' then line.length else sp.column + line.length, false, rest⟩

def next (sp : Spot) (rest : List Char) : Spot := (sp.after rest).skip

end Spot

def isMark (mark : Char) : List Char → Bool
  | c :: r => c == mark && r.head?.all isBlankOrBreak
  | [] => false

def isBracketMark (c : Char) : Bool := [',', '[', ']', '\x7b', '\x7d'].contains c

def startsPlain (s : List Char) : Bool :=
  match s with
  | [] => false
  | c :: r =>
    if ['-', '?', ':'].contains c then r.head?.any fun d => !isBlankOrBreak d
    else !(isBlankOrBreak c || isBracketMark c ||
      ['#', '&', '*', '!', '|', '>', '\'', '"', '%', '@', '\x60'].contains c)

def endsPlain (bracketed : Bool) (s : List Char) : Bool :=
  match s with
  | [] => true
  | ':' :: r => r.head?.all fun d => isBlankOrBreak d || (bracketed && isBracketMark d)
  | c :: r =>
    c == '\n' || (bracketed && (isBracketMark c || c == '?')) ||
      ((c == ' ' || c == '\t') && (skipBlanks r).head?.all fun d =>
        d == '#' || d == '\n' || (bracketed && isBracketMark d) || endsHere (skipBlanks r))
where
  endsHere : List Char → Bool
    | ':' :: r => r.head?.all isBlankOrBreak
    | _ => false

def plainLine (bracketed : Bool) : List Char → List Char × List Char
  | [] => ([], [])
  | c :: r =>
    if endsPlain bracketed (c :: r) then ([], c :: r)
    else
      let (text, rest) := plainLine bracketed r
      (c :: text, rest)

def readPlain (bracketed : Bool) (least : Nat) : Nat → List Char → List Char × List Char
  | 0, s => ([], s)
  | n + 1, s =>
    let (text, rest) := plainLine bracketed s
    let below := skipBlanks rest
    let deeper := (below.dropWhile isBlankOrBreak)
    let column := ((below.take (below.length - deeper.length)).reverse.takeWhile (· != '\n')).length
    if below.head? = some '\n' ∧ (bracketed ∨ least ≤ column) ∧ deeper.head?.any (· != '#') ∧
        !endsPlain bracketed deeper then
      let (gap, _) := foldGap below
      let (more, rest) := readPlain bracketed least n deeper
      (text ++ gap ++ more, rest)
    else (text, rest)

def Node.key? : Node → Option Value
  | scalar v => some v
  | _ => none

def key? (bracketed : Bool) (s : List Char) : Option (Value × List Char) := do
  let quoted := s.head? == some '"' || s.head? == some '\''
  let (key, rest) ← if quoted then (readQuoted? s).map fun p => (.string (String.ofList p.1), p.2)
    else if startsPlain s then
      let (text, rest) := plainLine bracketed s
      some (valueOf text, rest)
    else none
  if (s.take (s.length - rest.length)).contains '\n' then none
  else match skipBlanks rest with
    | ':' :: r =>
      let apart := r.head?.all fun d => isBlankOrBreak d || (bracketed && isBracketMark d)
      if (bracketed && quoted) || apart then some (key, r) else none
    | _ => none

mutual

def readFlow? : Nat → Spot → Option (Node × Spot)
  | 0, _ => none
  | n + 1, sp =>
    match sp.text with
    | '[' :: r => (readFlowItems? n [] (sp.next r)).map fun p => (.items p.1, p.2)
    | '\x7b' :: r => (readFlowEntries? n [] (sp.next r)).map fun p => (.entries p.1, p.2)
    | '"' :: _ | '\'' :: _ =>
      (readQuoted? sp.text).map fun p => (.scalar (.string (String.ofList p.1)), sp.next p.2)
    | s =>
      if startsPlain s then
        let (text, rest) := readPlain true 0 (s.length + 1) s
        some (.scalar (valueOf text), sp.next rest)
      else none

/-- Items up to the closing bracket, behind those already read. An item with a key is a mapping of
one entry. -/
def readFlowItems? : Nat → List Node → Spot → Option (List Node × Spot)
  | 0, _, _ => none
  | n + 1, vs, sp =>
    match sp.text with
    | ']' :: r => some (vs, sp.next r)
    | s => do
      let (v, sp) ← match key? true s with
        | some (k, r) => (readFlowValue? n (sp.next r)).map fun p => (.entries [(k, p.1)], p.2)
        | none => readFlow? n sp
      match sp.text with
      | ',' :: r => readFlowItems? n (vs ++ [v]) (sp.next r)
      | ']' :: r => some (vs ++ [v], sp.next r)
      | _ => none

def readFlowEntries? : Nat → List (Value × Node) → Spot → Option (List (Value × Node) × Spot)
  | 0, _, _ => none
  | n + 1, es, sp =>
    match sp.text with
    | '\x7d' :: r => some (es, sp.next r)
    | s => do
      let (k, v, sp) ← match key? true s with
        | some (k, r) => (readFlowValue? n (sp.next r)).map fun p => (k, p.1, p.2)
        | none => (readFlow? n sp).bind fun p => p.1.key?.map fun k => (k, .scalar .null, p.2)
      match sp.text with
      | ',' :: r => readFlowEntries? n (setEntry k v es) (sp.next r)
      | '\x7d' :: r => some (setEntry k v es, sp.next r)
      | _ => none

def readFlowValue? : Nat → Spot → Option (Node × Spot)
  | 0, _ => none
  | n + 1, sp =>
    match sp.text with
    | c :: _ => if c = ',' ∨ c = ']' ∨ c = '\x7d' then some (.scalar .null, sp) else readFlow? n sp
    | [] => none

end

def readLines (folded : Bool) (least : Nat) (s : List Char) : Node × Spot :=
  let head := BlockHead.read folded (s.takeWhile fun c => !isBlankOrBreak c)
  let (text, rest) := readBlock head (max 1 least) ((s.dropWhile (· != '\n')).drop 1)
  (.scalar (.string (String.ofList text)), skipFrom false 0 true rest)

mutual

/-- A value in lines that are set at a column at least; a mapping or sequence by indentation only
where one may begin. -/
def readNode? : Nat → Bool → Nat → Spot → Option (Node × Spot)
  | 0, _, _, _ => none
  | n + 1, nested, least, sp =>
    if nested && isMark '-' sp.text then
      (readItems? n sp.column [] sp).map fun p => (.items p.1, p.2)
    else if nested && (isMark '?' sp.text || (key? false sp.text).isSome) then
      (readEntries? n sp.column [] sp).map fun p => (.entries p.1, p.2)
    else match sp.text with
      | '[' :: _ | '\x7b' :: _ => readFlow? (2 * sp.text.length + 2) sp
      | '"' :: _ | '\'' :: _ =>
        (readQuoted? sp.text).map fun p => (.scalar (.string (String.ofList p.1)), sp.next p.2)
      | '|' :: r => some (readLines false least r)
      | '>' :: r => some (readLines true least r)
      | s =>
        if startsPlain s then
          let (text, rest) := readPlain false least (s.length + 1) s
          some (.scalar (valueOf text), sp.next rest)
        else none

def readItems? : Nat → Nat → List Node → Spot → Option (List Node × Spot)
  | 0, _, _, _ => none
  | n + 1, column, vs, sp =>
    if sp.column = column ∧ isMark '-' sp.text then do
      let (v, sp) ← readBelow? n column (sp.next (sp.text.drop 1))
      readItems? n column (vs ++ [v]) sp
    else some (vs, sp)

/-- What stands behind a mark at a column, on its line or deeper below; there may be nothing. -/
def readBelow? : Nat → Nat → Spot → Option (Node × Spot)
  | 0, _, _ => none
  | n + 1, column, sp =>
    if sp.text.isEmpty || (sp.fresh && decide (sp.column ≤ column)) then some (.scalar .null, sp)
    else readNode? n true (column + 1) sp

def readEntries? :
    Nat → Nat → List (Value × Node) → Spot → Option (List (Value × Node) × Spot)
  | 0, _, _, _ => none
  | n + 1, column, es, sp =>
    if sp.column ≠ column then some (es, sp)
    else if isMark '?' sp.text then do
      let (k, sp) ← readBelow? n column (sp.next (sp.text.drop 1))
      let (v, sp) ←
        if sp.column = column ∧ isMark ':' sp.text then
          readBelow? n column (sp.next (sp.text.drop 1))
        else some (.scalar .null, sp)
      readEntries? n column (setEntry (← k.key?) v es) sp
    else match key? false sp.text with
      | none => some (es, sp)
      | some (k, r) => do
        let value := sp.next r
        let (v, sp) ←
          if value.fresh ∧ value.column = column ∧ isMark '-' value.text then
            readNode? n true column value
          else if value.fresh then readBelow? n column value
          else if value.text.isEmpty then some (.scalar .null, value)
          else readNode? n false (column + 1) value
        readEntries? n column (setEntry k v es) sp

end

/-- The lines of the first document: behind the marks that open it, up to one that ends it. -/
def documentLines (all : List (List Char)) : List (List Char) :=
  let isEnd (l : List Char) : Bool := isMarkLine "---" l || isMarkLine "..." l
  let opening := all.takeWhile fun l => isEmptyLine l || l.head? == some '%' || l.head? == some '#'
  match all.drop opening.length with
  | l :: ls =>
    if isMarkLine "---" l then ("   ".toList ++ l.drop 3) :: ls.takeWhile (!isEnd ·)
    else (l :: ls).takeWhile (!isEnd ·)
  | [] => []
where
  isMarkLine (mark : String) (l : List Char) : Bool :=
    mark.toList.isPrefixOf l && (l.drop 3).head?.all isBlankOrBreak

/-- Reads a document; an empty one is null, and none is what cannot be read. -/
def read? (doc : List Char) : Option Node := do
  let doc := if doc.head? = some '\uFEFF' then doc.drop 1 else doc
  let text := List.intercalate ['\n'] (documentLines (splitBreaks doc))
  let sp := skipFrom false 0 true text
  if sp.text.isEmpty then some (.scalar .null)
  else
    let (v, sp) ← readNode? (2 * text.length + 2) true 0 sp
    if sp.text.isEmpty then some v else none

end FileQuery.Yaml
