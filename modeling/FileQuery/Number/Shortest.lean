import FileQuery.Number.Double
import FileQuery.Text.Integer

/-! The shortest decimal text that reads back as a double: the fewest digits that round to it, of
those the nearest. It is positional from 10⁻⁴ up to 10¹⁶ and has a fraction then; beyond, it has an
exponent of two digits or more. -/
set_option autoImplicit false
namespace FileQuery.Number

def powerOfTen (e : Int) : Nat × Nat := (Nat.pow 10 e.toNat, Nat.pow 10 (-e).toNat)

def powerOfTwo (e : Int) : Nat × Nat := (Nat.pow 2 e.toNat, Nat.pow 2 (-e).toNat)

namespace Dyadic

/-- With a mantissa of 53 bits where rounding has made one more. -/
def normalized (d : Dyadic) : Dyadic :=
  if d.mantissa = Nat.pow 2 53 then ⟨Nat.pow 2 52, d.exponent + 1⟩ else d

/-- The values that round to a double, in quarters of its last place: the least, the greatest, and
whether these two belong to them. -/
def bounds (d : Dyadic) : Nat × Nat × Bool :=
  let below := if d.mantissa = Nat.pow 2 52 ∧ leastExponent < d.exponent then 1 else 2
  (4 * d.mantissa - below, 4 * d.mantissa + 2, d.mantissa % 2 == 0)

def reads (d : Dyadic) (digits : Nat) (e : Int) : Bool :=
  let (low, high, closed) := d.bounds
  let (tn, td) := powerOfTen e
  let (bn, bd) := powerOfTwo (d.exponent - 2)
  let n := digits * tn * bd
  let m := td * bn
  if closed then decide (low * m ≤ n) && decide (n ≤ high * m)
  else decide (low * m < n) && decide (n < high * m)

def leading (d : Dyadic) : Int :=
  let (n, m) := d.scaled 1
  if m ≤ n then ((Text.digitsOf 10 (n / m)).length : Int) - 1
  else
    let places := ((List.range 400).find? fun k => decide (m ≤ n * Nat.pow 10 k)).getD 400
    Int.negOfNat places

/-- The nearest multiple of `10 ^ e` that rounds to the value, if one does. -/
def grid? (d : Dyadic) (e : Int) : Option Nat :=
  let (tn, td) := powerOfTen e
  let (bn, bd) := powerOfTwo d.exponent
  let n := d.mantissa * bn * td
  let m := bd * tn
  let q := n / m
  let near := roundDiv n m
  let far := if near = q then q + 1 else q
  if d.reads near e then some near else if d.reads far e then some far else none

def shortest (d : Dyadic) : Nat × Int :=
  let d := d.normalized
  if d.mantissa = 0 then (0, 0)
  else
    let top := d.leading
    let found := (List.range 17).findSome? fun (k : Nat) =>
      let e := top - (k : Int)
      (d.grid? e).map fun digits => (digits, e)
    found.getD (d.mantissa, d.exponent)

end Dyadic

def trimZeros (ds : List Char) : List Char := (ds.reverse.dropWhile (· == '0')).reverse

def decimalText (digits : Nat) (e : Int) : List Char :=
  let ds := Text.digitsOf 10 digits
  let point : Int := ds.length + e
  if digits = 0 then ['0', '.', '0']
  else if -4 < point ∧ point ≤ 16 then
    let p := point.toNat
    if point ≤ 0 then
      '0' :: '.' :: List.replicate (-point).toNat '0' ++ trimZeros ds
    else
      let whole := ds.take p ++ List.replicate (p - ds.length) '0'
      let rest := trimZeros (ds.drop p)
      whole ++ '.' :: (if rest.isEmpty then ['0'] else rest)
  else
    let exponent := point - 1
    let shown := (Text.padded 2 exponent.natAbs).toList
    let sign := if exponent < 0 then '-' else '+'
    match trimZeros ds with
    | [] => []
    | [c] => c :: 'e' :: sign :: shown
    | c :: r => c :: '.' :: r ++ 'e' :: sign :: shown

/-- A decimal number rounded to a double, as its shortest text; beyond the doubles it is infinite. -/
def shortestText (negative : Bool) (digits : Nat) (e : Int) : String :=
  let sign := if negative then "-" else ""
  let size : Int := (Text.digitsOf 10 digits).length + e
  if digits = 0 ∨ size < -330 then sign ++ "0.0"
  else if 310 < size then sign ++ "Infinity"
  else
    let (n, m) := powerOfTen e
    let d := toDouble (digits * n) m
    if d.overflows then sign ++ "Infinity"
    else
      let (digits, e) := d.shortest
      sign ++ String.ofList (decimalText digits e)

end FileQuery.Number
