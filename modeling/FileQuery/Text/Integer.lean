import FileQuery.Text.Blank
import FileQuery.Text.Digit

/-! Integers as people write them: blanks around, a sign, digits of any script, single underscores
between digits, and for octal an optional `0o` in front. Decimal numbers have at most 4300 digits. -/
set_option autoImplicit false
namespace FileQuery.Text

inductive IntegerError where
  | malformed
  | tooLong (digits : Nat)
  deriving DecidableEq, Repr

def maxDecimalDigits : Nat := 4300

def tooManyDigitsText (count : Nat) : String :=
  s!"Exceeds the limit ({maxDecimalDigits} digits) for integer string conversion: " ++
    s!"value has {count} digits; use sys.set_int_max_str_digits() to increase the limit"

/-- Blanks an integer may have around it; the ASCII separators are not among them. -/
def isIntegerBlank (c : Char) : Bool :=
  isBlank c && !(decide (28 ≤ c.toNat) && decide (c.toNat ≤ 31))

def trimInteger (s : List Char) : List Char :=
  ((s.dropWhile isIntegerBlank).reverse.dropWhile isIntegerBlank).reverse

def digitBelow? (base : Nat) (c : Char) : Option Nat :=
  (digitValue? c).filter (fun v => decide (v < base))

/-- Digits after the first one, each with at most one underscore before it. -/
def moreDigits (base : Nat) : List Char → Option (List Nat)
  | [] => some []
  | '_' :: c :: r => do
    let d ← digitBelow? base c
    let ds ← moreDigits base r
    return d :: ds
  | c :: r => do
    let d ← digitBelow? base c
    let ds ← moreDigits base r
    return d :: ds

def digits? (base : Nat) : List Char → Option (List Nat)
  | [] => none
  | c :: r => do
    let d ← digitBelow? base c
    let ds ← moreDigits base r
    return d :: ds

def ofDigits (base : Nat) (ds : List Nat) : Nat := ds.foldl (fun n d => n * base + d) 0

def cutSign : List Char → Bool × List Char
  | '-' :: r => (true, r)
  | '+' :: r => (false, r)
  | r => (false, r)

/-- Drops an octal marker, which one underscore may follow. -/
def dropOctalMark : List Char → List Char
  | z :: o :: r =>
    if digitValue? z = some 0 ∧ (o = 'o' ∨ o = 'O') then
      match r with
      | '_' :: r => r
      | r => r
    else z :: o :: r
  | r => r

def signed (negative : Bool) (n : Nat) : Int := if negative then -(n : Int) else n

def readDecimal (s : List Char) : Except IntegerError Int :=
  let (negative, body) := cutSign (trimInteger s)
  match digits? 10 body with
  | none => .error .malformed
  | some ds =>
    if maxDecimalDigits < ds.length then .error (.tooLong ds.length)
    else .ok (signed negative (ofDigits 10 ds))

def readOctal? (s : List Char) : Option Int :=
  let (negative, body) := cutSign (trimInteger s)
  (digits? 8 (dropOctalMark body)).map (fun ds => signed negative (ofDigits 8 ds))

def digitsOf (base n : Nat) : List Char := Nat.toDigits base n

def octal (width n : Nat) : String :=
  let ds := digitsOf 8 n
  String.ofList (List.replicate (width - ds.length) '0' ++ ds)

def padded (width n : Nat) : String :=
  let ds := digitsOf 10 n
  String.ofList (List.replicate (width - ds.length) '0' ++ ds)

end FileQuery.Text
