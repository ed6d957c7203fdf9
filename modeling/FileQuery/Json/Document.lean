import FileQuery.Json.Basic
import FileQuery.Json.String
import FileQuery.Number.Shortest

/-! Reading JSON documents. Beside the numbers of the standard, `NaN` and the two infinities are
read; a later entry of an object replaces an earlier one of the same name in its place. -/
set_option autoImplicit false
namespace FileQuery.Json

def isSpace (c : Char) : Bool := c == ' ' || c == '\t' || c == '\n' || c == '\r'

structure Rest where
  offset : Nat
  text : List Char
  deriving DecidableEq, Repr

namespace Rest

def skip (r : Rest) (n : Nat) : Rest := ⟨r.offset + n, r.text.drop n⟩

def skipSpaces (r : Rest) : Rest := r.skip (r.text.takeWhile isSpace).length

end Rest

/-- Puts an entry into an object: in the place of an entry of the same name, or at the end. -/
def setEntry (name : String) (v : Value) : List (String × Value) → List (String × Value)
  | [] => [(name, v)]
  | (k, old) :: es => if k = name then (k, v) :: es else (k, old) :: setEntry name v es

inductive ReadError where
  | fault (f : Fault)
  | tooManyDigits (count : Nat)
  | tooDeep
  deriving DecidableEq, Repr

namespace ReadError

def message (doc : List Char) : ReadError → String
  | fault f => f.message doc
  | tooManyDigits n => Text.tooManyDigitsText n
  | tooDeep => "maximum recursion depth exceeded while decoding a JSON document"

end ReadError

def isDigit (c : Char) : Bool := decide ('0' ≤ c) && decide (c ≤ '9')

def numberOf (ds : List Char) : Nat := ds.foldl (fun n c => n * 10 + (c.toNat - 48)) 0

def cutFraction (s : List Char) : List Char × List Char :=
  match s with
  | '.' :: r =>
    match r.takeWhile isDigit with
    | [] => ([], s)
    | ds => (ds, r.dropWhile isDigit)
  | _ => ([], s)

def cutExponent? (s : List Char) : Option (Int × List Char) :=
  match s with
  | c :: r =>
    if c = 'e' ∨ c = 'E' then
      let (negative, body) := Text.cutSign r
      match body.takeWhile isDigit with
      | [] => none
      | ds => some (Text.signed negative (numberOf ds), body.dropWhile isDigit)
    else none
  | [] => none

/-- The digits before a fraction: a lone zero, or digits that begin with another one. -/
def cutWhole? : List Char → Option (List Char × List Char)
  | '0' :: r => some (['0'], r)
  | c :: r => if isDigit c then some (c :: r.takeWhile isDigit, r.dropWhile isDigit) else none
  | [] => none

def cutMinus : List Char → Bool × List Char
  | '-' :: r => (true, r)
  | r => (false, r)

/-- A number at the head of a text and what follows it. There may be a limit to the digits of an
integer. -/
def cutNumber? (limit : Option Nat) (s : List Char) : Option (Except ReadError Value × List Char) :=
  let (negative, body) := cutMinus s
  (cutWhole? body).map fun (whole, r) =>
    let (fraction, r) := cutFraction r
    match cutExponent? r with
    | some (e, r) =>
      let digits := numberOf (whole ++ fraction)
      (.ok (.real (Number.shortestText negative digits (e - fraction.length))), r)
    | none =>
      if fraction.isEmpty then
        if limit.any (· < whole.length) then (.error (.tooManyDigits whole.length), r)
        else (.ok (.int (Text.signed negative (numberOf whole))), r)
      else
        (.ok (.real
          (Number.shortestText negative (numberOf (whole ++ fraction)) (-fraction.length))), r)

def words : List (String × Value) :=
  [("null", .null), ("true", .bool true), ("false", .bool false), ("NaN", .real "NaN"),
   ("Infinity", .real "Infinity"), ("-Infinity", .real "-Infinity")]

def word? (s : List Char) : Option (Nat × Value) :=
  (words.find? fun w => w.1.toList.isPrefixOf s).map fun w => (w.1.length, w.2)

def fail {α : Type} (cause : Cause) (r : Rest) : Except ReadError (α × Rest) :=
  .error (.fault ⟨cause, r.offset⟩)

def readScalar (limit : Option Nat) (r : Rest) : Except ReadError (Value × Rest) :=
  match word? r.text with
  | some (n, v) => .ok (v, r.skip n)
  | none =>
    match cutNumber? limit r.text with
    | some (.ok v, after) => .ok (v, r.skip (r.text.length - after.length))
    | some (.error e, _) => .error e
    | none => fail .expectedValue r

def readString (r : Rest) : Except ReadError (String × Rest) :=
  match scanString true (r.offset - 1) r.offset r.text with
  | .ok (s, offset, text) => .ok (s.toString, ⟨offset, text⟩)
  | .error f => .error (.fault f)

mutual

def readValue (limit : Option Nat) : Nat → Rest → Except ReadError (Value × Rest)
  | 0, _ => .error .tooDeep
  | n + 1, r =>
    match r.text with
    | '"' :: _ => do
      let (s, r) ← readString (r.skip 1)
      return (.string s, r)
    | '[' :: _ =>
      let r := (r.skip 1).skipSpaces
      match r.text with
      | ']' :: _ => .ok (.array [], r.skip 1)
      | _ => do
        let (vs, r) ← readItems limit n r
        return (.array vs, r)
    | '\x7b' :: _ =>
      let r := (r.skip 1).skipSpaces
      match r.text with
      | '\x7d' :: _ => .ok (.object [], r.skip 1)
      | _ => do
        let (es, r) ← readEntries limit n [] r
        return (.object es, r)
    | _ => readScalar limit r

def readItems (limit : Option Nat) : Nat → Rest → Except ReadError (List Value × Rest)
  | 0, _ => .error .tooDeep
  | n + 1, r => do
    let (v, r) ← readValue limit n r
    let r := r.skipSpaces
    match r.text with
    | ']' :: _ => return ([v], r.skip 1)
    | ',' :: _ =>
      let (vs, r) ← readItems limit n (r.skip 1).skipSpaces
      return (v :: vs, r)
    | _ => fail .expectedComma r

def readEntries (limit : Option Nat) :
    Nat → List (String × Value) → Rest → Except ReadError (List (String × Value) × Rest)
  | 0, _, _ => .error .tooDeep
  | n + 1, es, r => do
    match r.text with
    | '"' :: _ =>
      let (name, r) ← readString (r.skip 1)
      let r := r.skipSpaces
      match r.text with
      | ':' :: _ =>
        let (v, r) ← readValue limit n (r.skip 1).skipSpaces
        let es := setEntry name v es
        let r := r.skipSpaces
        match r.text with
        | '\x7d' :: _ => return (es, r.skip 1)
        | ',' :: _ => readEntries limit n es (r.skip 1).skipSpaces
        | _ => fail .expectedComma r
      | _ => fail .expectedColon r
    | _ => fail .expectedName r

end

/-- Reads a document: one value with nothing but spaces around it. Every level and every item takes
at least one character, so the length of the document bounds them. -/
def read (doc : List Char) (limit : Option Nat := some Text.maxDecimalDigits) :
    Except ReadError Value :=
  match doc with
  | '\uFEFF' :: _ => .error (.fault ⟨.byteOrderMark, 0⟩)
  | _ => do
    let (v, r) ← readValue limit (2 * doc.length + 2) (Rest.mk 0 doc).skipSpaces
    let r := r.skipSpaces
    if r.text.isEmpty then return v else .error (.fault ⟨.extraData, r.offset⟩)

end FileQuery.Json
