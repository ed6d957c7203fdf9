import FileQuery.Text.Integer
import FileQuery.Text.Quoted
import FileQuery.Instant.Basic
import FileQuery.Json.Document

/-! Why a text is no TOML document, and where. -/
set_option autoImplicit false
namespace FileQuery.Toml

abbrev Key := List String

def keyText (key : Key) : String :=
  match key with
  | [k] => "(" ++ Text.quoted k ++ ",)"
  | ks => "(" ++ String.intercalate ", " (ks.map Text.quoted) ++ ")"

inductive Cause where
  | invalidStatement
  | expectedEnd
  | expectedText (text : String)
  | invalidCharacter (c : Char)
  | illegalCharacter (c : Char)
  | declaredTwice (key : Key)
  | overwrites
  | tableEnd
  | arrayTableEnd
  | immutable (key : Key)
  | redefines (key : Key)
  | expectedEquals
  | invalidKey
  | unclosedArray
  | unclosedTable
  | duplicateKey (name : String)
  | unescapedBackslash
  | invalidHex
  | notScalar
  | unterminatedString
  | invalidDate
  | invalidValue
  deriving DecidableEq, Repr

namespace Cause

def message : Cause → String
  | invalidStatement => "Invalid statement"
  | expectedEnd => "Expected newline or end of document after a statement"
  | expectedText text => "Expected " ++ Text.quoted text
  | invalidCharacter c => "Found invalid character " ++ Text.quoted (String.singleton c)
  | illegalCharacter c => "Illegal character " ++ Text.quoted (String.singleton c)
  | declaredTwice key => "Cannot declare " ++ keyText key ++ " twice"
  | overwrites => "Cannot overwrite a value"
  | tableEnd => "Expected ']' at the end of a table declaration"
  | arrayTableEnd => "Expected ']]' at the end of an array declaration"
  | immutable key => "Cannot mutate immutable namespace " ++ keyText key
  | redefines key => "Cannot redefine namespace " ++ keyText key
  | expectedEquals => "Expected '=' after a key in a key/value pair"
  | invalidKey => "Invalid initial character for a key part"
  | unclosedArray => "Unclosed array"
  | unclosedTable => "Unclosed inline table"
  | duplicateKey name => "Duplicate inline table key " ++ Text.quoted name
  | unescapedBackslash => "Unescaped '\\' in a string"
  | invalidHex => "Invalid hex value"
  | notScalar => "Escaped character is not a Unicode scalar value"
  | unterminatedString => "Unterminated string"
  | invalidDate => "Invalid date or datetime"
  | invalidValue => "Invalid value"

end Cause

/-- A fault in front of so many last characters of the document, or a number that is too long. -/
inductive Fault where
  | at (cause : Cause) (left : Nat)
  | tooManyDigits (count : Nat)
  deriving DecidableEq, Repr

def place (doc : List Char) (left : Nat) : String :=
  if left = 0 then "end of document"
  else
    let before := doc.take (doc.length - left)
    let line := before.count '\n' + 1
    let column := (before.reverse.takeWhile (· != '\n')).length + 1
    s!"line {line}, column {column}"

def Fault.message (doc : List Char) : Fault → String
  | .at cause left => cause.message ++ " (at " ++ place doc left ++ ")"
  | .tooManyDigits n => Text.tooManyDigitsText n

/-! The leaves of TOML documents: keys, strings, numbers and dates. Each function reads at the head
of a text and hands back what follows. -/

open Json (Value isDigit)

abbrev Table := List (String × Value)

def fail {α : Type} (cause : Cause) (s : List Char) : Except Fault α := .error (.at cause s.length)

def isSpace (c : Char) : Bool := c == ' ' || c == '\t'

def isSpaceOrBreak (c : Char) : Bool := isSpace c || c == '\n'

def skipSpaces (s : List Char) : List Char := s.dropWhile isSpace

def isControl (c : Char) : Bool := (decide (c.toNat < 0x20) && c != '\t') || c.toNat == 0x7F

def isBlockControl (c : Char) : Bool := isControl c && c != '\n'

def isBareKeyChar (c : Char) : Bool := c.isAlphanum || c == '-' || c == '_'

def startsWith (mark s : List Char) : Bool := mark.isPrefixOf s

def cutBefore? (mark : List Char) : List Char → Option (List Char × List Char)
  | [] => none
  | c :: r =>
    if startsWith mark (c :: r) then some ([], c :: r)
    else (cutBefore? mark r).map fun p => (c :: p.1, p.2)

def readUpTo (mark : List Char) (refused : Char → Bool) (s : List Char) :
    Except Fault (List Char × List Char) :=
  match cutBefore? mark s with
  | none => fail (.expectedText (String.ofList mark)) []
  | some (text, rest) =>
    match s.dropWhile fun c => !refused c with
    | [] => .ok (text, rest)
    | c :: r => if (c :: r).length ≤ rest.length then .ok (text, rest)
      else fail (.invalidCharacter c) (c :: r)

def skipNote (s : List Char) : Except Fault (List Char) :=
  match s with
  | '#' :: r =>
    match r.dropWhile fun c => !(isControl c) with
    | '\n' :: r => .ok ('\n' :: r)
    | c :: r => fail (.invalidCharacter c) (c :: r)
    | [] => .ok []
  | s => .ok s

def skipGaps : Nat → List Char → Except Fault (List Char)
  | 0, s => .ok s
  | n + 1, s => do
    let s' := s.dropWhile isSpaceOrBreak
    let s'' ← skipNote s'
    if s''.length = s.length then return s'' else skipGaps n s''

def hexCount (s : List Char) : Nat := s.foldl (fun n c => n * 16 + (Json.hexValue? c).getD 0) 0

def readHex (width : Nat) (s : List Char) : Except Fault (List Char × List Char) :=
  let ds := s.take width
  if ds.length ≠ width ∨ !(ds.all fun c => (Json.hexValue? c).isSome) then fail .invalidHex s
  else
    let n := hexCount ds
    if n < 0xD800 ∨ (0xE000 ≤ n ∧ n < 0x110000) then .ok ([Char.ofNat n], s.drop width)
    else fail .notScalar (s.drop width)

def escapes : List (Char × Char) :=
  [('b', '\x08'), ('t', '\t'), ('n', '\n'), ('f', '\x0c'), ('r', '\r'), ('"', '"'), ('\\', '\\')]

/-- What an escape stands for; the text goes on behind its backslash. In a block a backslash at the
end of a line takes the break and all blanks after it away. -/
def readEscape (block : Bool) (s : List Char) : Except Fault (List Char × List Char) :=
  match s with
  | [] => fail .unescapedBackslash []
  | c :: r =>
    if block && c == '\n' then .ok ([], r.dropWhile isSpaceOrBreak)
    else if block && isSpace c then
      match skipSpaces r with
      | [] => .ok ([], [])
      | '\n' :: r => .ok ([], r.dropWhile isSpaceOrBreak)
      | r => fail .unescapedBackslash r
    else if c = 'u' then readHex 4 r
    else if c = 'U' then readHex 8 r
    else match escapes.lookup c with
      | some d => .ok ([d], r)
      | none => fail .unescapedBackslash r

/-- The inside of a string in double quotes, and what follows its closing quotes. The first argument
is at least the number of characters. -/
def readBasic (block : Bool) : Nat → List Char → Except Fault (List Char × List Char)
  | 0, s => fail .unterminatedString s
  | n + 1, s =>
    match s with
    | [] => fail .unterminatedString []
    | '"' :: r =>
      if !block then .ok ([], r)
      else match r with
        | '"' :: '"' :: r => .ok ([], r)
        | r => (readBasic block n r).map fun p => ('"' :: p.1, p.2)
    | '\\' :: r => do
      let (text, r) ← readEscape block r
      let (rest, r) ← readBasic block n r
      return (text ++ rest, r)
    | c :: r =>
      if (if block then isBlockControl c else isControl c) then fail (.illegalCharacter c) (c :: r)
      else (readBasic block n r).map fun p => (c :: p.1, p.2)

/-- Up to two more quotes that stand in front of the closing three belong to the text. -/
def takeQuotes (quote : Char) (p : List Char × List Char) : List Char × List Char :=
  match p.2 with
  | a :: b :: r =>
    if a = quote ∧ b = quote then (p.1 ++ [quote, quote], r)
    else if a = quote then (p.1 ++ [quote], b :: r)
    else p
  | [a] => if a = quote then (p.1 ++ [quote], []) else p
  | [] => p

def dropBreak : List Char → List Char
  | '\n' :: r => r
  | r => r

def readString? (s : List Char) : Option (Except Fault (List Char × List Char)) :=
  match s with
  | '"' :: '"' :: '"' :: r =>
    some ((readBasic true (r.length + 1) (dropBreak r)).map (takeQuotes '"'))
  | '"' :: r => some (readBasic false (r.length + 1) r)
  | '\'' :: '\'' :: '\'' :: r =>
    some ((readUpTo ['\'', '\'', '\''] isBlockControl (dropBreak r)).map fun p =>
      takeQuotes '\'' (p.1, p.2.drop 3))
  | '\'' :: r => some ((readUpTo ['\''] isControl r).map fun p => (p.1, p.2.drop 1))
  | _ => none

def readKeyPart (s : List Char) : Except Fault (String × List Char) :=
  match s.takeWhile isBareKeyChar with
  | c :: r => .ok (String.ofList (c :: r), s.dropWhile isBareKeyChar)
  | [] =>
    match s with
    | '"' :: r => (readBasic false (r.length + 1) r).map fun p => (String.ofList p.1, p.2)
    | '\'' :: r => (readUpTo ['\''] isControl r).map fun p => (String.ofList p.1, p.2.drop 1)
    | s => fail .invalidKey s

def readKey : Nat → List Char → Except Fault (Key × List Char)
  | 0, s => fail .invalidKey s
  | n + 1, s => do
    let (part, s) ← readKeyPart s
    match skipSpaces s with
    | '.' :: r =>
      let (parts, r) ← readKey n (skipSpaces r)
      return (part :: parts, r)
    | r => return ([part], r)

def cutDigits (isOne : Char → Bool) : List Char → List Char × List Char
  | '_' :: c :: r =>
    if isOne c then
      let (ds, rest) := cutDigits isOne r
      (c :: ds, rest)
    else ([], '_' :: c :: r)
  | c :: r =>
    if isOne c then
      let (ds, rest) := cutDigits isOne r
      (c :: ds, rest)
    else ([], c :: r)
  | [] => ([], [])

def cutDigits? (isOne : Char → Bool) (s : List Char) : Option (List Char × List Char) :=
  match s with
  | c :: _ => if isOne c then some (cutDigits isOne s) else none
  | [] => none

def isHex (c : Char) : Bool := (Json.hexValue? c).isSome

def isBinary (c : Char) : Bool := c == '0' || c == '1'

def isOctal (c : Char) : Bool := decide ('0' ≤ c) && decide (c ≤ '7')

def digitsIn (base : Nat) (ds : List Char) : Nat :=
  ds.foldl (fun n c => n * base + (Json.hexValue? c).getD 0) 0

def cutMarked? (s : List Char) : Option (Nat × List Char) :=
  match s with
  | '0' :: 'x' :: r => (cutDigits? isHex r).map fun p => (digitsIn 16 p.1, p.2)
  | '0' :: 'b' :: r => (cutDigits? isBinary r).map fun p => (digitsIn 2 p.1, p.2)
  | '0' :: 'o' :: r => (cutDigits? isOctal r).map fun p => (digitsIn 8 p.1, p.2)
  | _ => none

def cutFraction (s : List Char) : List Char × List Char :=
  match s with
  | '.' :: r => (cutDigits? isDigit r).getD ([], s)
  | _ => ([], s)

def cutExponent? (s : List Char) : Option (Int × List Char) :=
  match s with
  | c :: r =>
    if c = 'e' ∨ c = 'E' then
      let (negative, body) := Text.cutSign r
      (cutDigits? isDigit body).map fun p =>
        (Text.signed negative (Json.numberOf p.1), p.2)
    else none
  | [] => none

def cutDecimal? (s : List Char) : Option (Except Fault Value × List Char) :=
  let (negative, body) := Text.cutSign s
  let whole := match body with
    | '0' :: r => some (['0'], r)
    | b => cutDigits? isDigit b
  whole.map fun (ds, r) =>
    let (fraction, r) := cutFraction r
    match cutExponent? r with
    | some (e, r) =>
      (.ok (.real (Number.shortestText negative (Json.numberOf (ds ++ fraction))
        (e - fraction.length))), r)
    | none =>
      if !fraction.isEmpty then
        (.ok (.real (Number.shortestText negative (Json.numberOf (ds ++ fraction))
          (-fraction.length))), r)
      else if Text.maxDecimalDigits < ds.length then (.error (.tooManyDigits ds.length), r)
      else (.ok (.int (Text.signed negative (Json.numberOf ds))), r)

def cutPair? (least most : Nat) (s : List Char) : Option (Nat × List Char) :=
  match s with
  | a :: b :: r =>
    let n := Json.numberOf [a, b]
    if isDigit a && isDigit b && decide (least ≤ n) && decide (n ≤ most) then some (n, r) else none
  | _ => none

def cutChar? (c : Char) : List Char → Option (List Char)
  | d :: r => if d = c then some r else none
  | [] => none

def cutTime? (s : List Char) : Option (String × List Char) := do
  let (h, r) ← cutPair? 0 23 s
  let r ← cutChar? ':' r
  let (m, r) ← cutPair? 0 59 r
  let r ← cutChar? ':' r
  let (sec, r) ← cutPair? 0 59 r
  let text := Text.padded 2 h ++ ":" ++ Text.padded 2 m ++ ":" ++ Text.padded 2 sec
  match r with
  | '.' :: rest =>
    let ds := rest.takeWhile isDigit
    if ds.isEmpty then return (text, r)
    let six := (ds.take 6) ++ List.replicate (6 - ds.length) '0'
    let shown := if six.all (· == '0') then text else text ++ "." ++ String.ofList six
    return (shown, rest.dropWhile isDigit)
  | r => return (text, r)

def cutOffset (s : List Char) : String × List Char :=
  match s with
  | 'Z' :: r | 'z' :: r => ("+00:00", r)
  | c :: r =>
    let parts? : Option (String × List Char) := do
      let (h, r) ← cutPair? 0 23 r
      let r ← cutChar? ':' r
      let (m, r) ← cutPair? 0 59 r
      let sign := if c = '-' ∧ h + m ≠ 0 then "-" else "+"
      return (sign ++ Text.padded 2 h ++ ":" ++ Text.padded 2 m, r)
    if c = '+' ∨ c = '-' then parts?.getD ("", s) else ("", s)
  | [] => ("", [])

def cutDate? (s : List Char) : Option (Bool × String × List Char) := do
  let (y, r) ← (match s with
    | a :: b :: c :: d :: r =>
      if [a, b, c, d].all isDigit then some (Json.numberOf [a, b, c, d], r) else none
    | _ => none)
  let r ← cutChar? '-' r
  let (m, r) ← cutPair? 1 12 r
  let r ← cutChar? '-' r
  let (d, r) ← cutPair? 1 31 r
  let valid := decide (1 ≤ y) && decide (d ≤ Date.daysInMonth y m)
  let text := Text.padded 4 y ++ "-" ++ Text.padded 2 m ++ "-" ++ Text.padded 2 d
  match r with
  | c :: rest =>
    if c = 'T' ∨ c = 't' ∨ c = ' ' then
      match cutTime? rest with
      | some (time, rest) =>
        let (offset, rest) := cutOffset rest
        return (valid, text ++ "T" ++ time ++ offset, rest)
      | none => return (valid, text, r)
    else return (valid, text, r)
  | [] => return (valid, text, r)

def numberWords : List (String × String) :=
  [("inf", "Infinity"), ("nan", "NaN"), ("-inf", "-Infinity"), ("+inf", "Infinity"),
   ("-nan", "NaN"), ("+nan", "NaN")]

/-- A value that is no array and no table. Dates and times are held by their texts. -/
def readScalar (s : List Char) : Except Fault (Value × List Char) :=
  match readString? s with
  | some r => r.map fun p => (.string (String.ofList p.1), p.2)
  | none =>
    if startsWith "true".toList s then .ok (.bool true, s.drop 4)
    else if startsWith "false".toList s then .ok (.bool false, s.drop 5)
    else match cutDate? s with
      | some (valid, text, r) => if valid then .ok (.string text, r) else fail .invalidDate s
      | none =>
        match cutTime? s with
        | some (text, r) => .ok (.string text, r)
        | none =>
          match cutMarked? s with
          | some (n, r) => .ok (.int n, r)
          | none =>
            match cutDecimal? s with
            | some (v, r) => v.map fun v => (v, r)
            | none =>
              match numberWords.find? fun w => startsWith w.1.toList s with
              | some (w, t) => .ok (.real t, s.drop w.length)
              | none => fail .invalidValue s

end FileQuery.Toml
