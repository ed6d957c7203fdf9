import FileQuery.Text.CodePoint

/-! Why a text is no JSON document, and where. -/
set_option autoImplicit false
namespace FileQuery.Json

inductive Cause where
  | unterminatedString
  | invalidControl
  | invalidEscape
  | invalidHexEscape
  | expectedValue
  | expectedName
  | expectedColon
  | expectedComma
  | extraData
  | byteOrderMark
  deriving DecidableEq, Repr

namespace Cause

def message : Cause → String
  | unterminatedString => "Unterminated string starting at"
  | invalidControl => "Invalid control character at"
  | invalidEscape => "Invalid \\escape"
  | invalidHexEscape => "Invalid \\uXXXX escape"
  | expectedValue => "Expecting value"
  | expectedName => "Expecting property name enclosed in double quotes"
  | expectedColon => "Expecting ':' delimiter"
  | expectedComma => "Expecting ',' delimiter"
  | extraData => "Extra data"
  | byteOrderMark => "Unexpected UTF-8 BOM (decode using utf-8-sig)"

end Cause

structure Fault where
  cause : Cause
  offset : Nat
  deriving DecidableEq, Repr

def lineColumn (doc : List Char) (offset : Nat) : Nat × Nat :=
  let before := doc.take offset
  (before.count '\n' + 1, (before.reverse.takeWhile (· != '\n')).length + 1)

def Fault.message (f : Fault) (doc : List Char) : String :=
  let (line, column) := lineColumn doc f.offset
  f.cause.message ++ s!": line {line} column {column} (char {f.offset})"

/-! The inside of a JSON string, read from its opening quote to its closing quote. -/

def hexValue? (c : Char) : Option Nat :=
  if '0' ≤ c ∧ c ≤ '9' then some (c.toNat - 48)
  else if 'a' ≤ c ∧ c ≤ 'f' then some (c.toNat - 87)
  else if 'A' ≤ c ∧ c ≤ 'F' then some (c.toNat - 55)
  else none

/-- Four hexadecimal digits with something after them, and the rest. -/
def hex4? : List Char → Option (Nat × List Char)
  | a :: b :: c :: d :: e :: r => do
    let a ← hexValue? a
    let b ← hexValue? b
    let c ← hexValue? c
    let d ← hexValue? d
    return (((a * 16 + b) * 16 + c) * 16 + d, e :: r)
  | _ => none

def simpleEscape? : Char → Option Char
  | '"' => some '"'
  | '\\' => some '\\'
  | '/' => some '/'
  | 'b' => some '\x08'
  | 'f' => some '\x0c'
  | 'n' => some '\n'
  | 'r' => some '\r'
  | 't' => some '\t'
  | _ => none

/-- What follows the `\u` of an escape: a code point, and how many characters it took. A high
surrogate takes the low surrogate escape after it along; an escape after it must have four digits. -/
inductive HexEscape where
  | invalid
  | invalidSecond
  | point (n : Nat) (taken : Nat)
  deriving DecidableEq, Repr

def hexEscape (s : List Char) : HexEscape :=
  match hex4? s with
  | none => .invalid
  | some (high, r) =>
    if Text.isHighSurrogate high then
      match r with
      | '\\' :: 'u' :: a :: b :: c :: d :: e :: _ =>
        match hex4? [a, b, c, d, e] with
        | none => .invalidSecond
        | some (low, _) =>
          if Text.isLowSurrogate low then .point (Text.joinSurrogates high low) 10
          else .point high 4
      | _ => .point high 4
    else .point high 4

/-- Reads up to the closing quote. `opened` is the offset of the opening quote and `offset` the
one where the text goes on. In a strict string control characters are faults. -/
def scanString (strict : Bool) (opened offset : Nat) (s : List Char) :
    Except Fault (Text.CodePoints × Nat × List Char) :=
  match s with
  | [] => .error ⟨.unterminatedString, opened⟩
  | '"' :: r => .ok ([], offset + 1, r)
  | '\\' :: r =>
    match r with
    | [] => .error ⟨.unterminatedString, opened⟩
    | 'u' :: r =>
      match hexEscape r with
      | .invalid => .error ⟨.invalidHexEscape, offset + 1⟩
      | .invalidSecond => .error ⟨.invalidHexEscape, offset + 7⟩
      | .point n taken => do
        let (ns, stop, rest) ← scanString strict opened (offset + 2 + taken) (r.drop taken)
        return (n :: ns, stop, rest)
    | c :: r =>
      match simpleEscape? c with
      | none => .error ⟨.invalidEscape, offset⟩
      | some d => do
        let (ns, stop, rest) ← scanString strict opened (offset + 2) r
        return (d.toNat :: ns, stop, rest)
  | c :: r =>
    if strict && decide (c.toNat < 0x20) then .error ⟨.invalidControl, offset⟩
    else do
      let (ns, stop, rest) ← scanString strict opened (offset + 1) r
      return (c.toNat :: ns, stop, rest)
termination_by s.length
decreasing_by
  all_goals simp only [List.length_drop, List.length_cons]
  all_goals omega

end FileQuery.Json
