/-! Exact arithmetic for values that pass through a double: a quotient rounded to 53 significant
bits, and a value rounded to an integer, both with ties to even. -/
set_option autoImplicit false
namespace FileQuery.Number

/-- The natural number nearest to a quotient; a half goes to the even neighbour. -/
def roundDiv (num den : Nat) : Nat :=
  let q := num / den
  let r := num % den
  if den < 2 * r then q + 1
  else if 2 * r = den then (if q % 2 = 0 then q else q + 1)
  else q

structure Dyadic where
  mantissa : Nat
  exponent : Int
  deriving DecidableEq, Repr

namespace Dyadic

/-- Numerator and denominator of the value times a natural number. -/
def scaled (d : Dyadic) (factor : Nat) : Nat × Nat :=
  match d.exponent with
  | .ofNat e => (d.mantissa * factor * Nat.pow 2 e, 1)
  | .negSucc e => (d.mantissa * factor, Nat.pow 2 (e + 1))

def round (d : Dyadic) : Nat :=
  let (n, m) := d.scaled 1
  roundDiv n m

def floor (d : Dyadic) : Nat :=
  let (n, m) := d.scaled 1
  n / m

def fraction (d : Dyadic) : Dyadic :=
  match d.exponent with
  | .ofNat _ => ⟨0, 0⟩
  | .negSucc e => ⟨d.mantissa % Nat.pow 2 (e + 1), .negSucc e⟩

def overflows (d : Dyadic) : Bool :=
  let (n, m) := d.scaled 1
  decide (Nat.pow 2 1024 * m ≤ n)

end Dyadic

def leastExponent : Int := -1074

/-- A quotient rounded to a double: to 53 significant bits, or fewer near zero. -/
def toDouble (num den : Nat) : Dyadic :=
  if num = 0 then ⟨0, 0⟩
  else
    let l : Int := (Nat.log2 num : Int) - Nat.log2 den
    let above := match l with
      | .ofNat k => decide (den * Nat.pow 2 k ≤ num)
      | .negSucc k => decide (den ≤ num * Nat.pow 2 (k + 1))
    let e : Int := max ((if above then l else l - 1) - 52) leastExponent
    match e with
    | .ofNat k => ⟨roundDiv num (den * Nat.pow 2 k), e⟩
    | .negSucc k => ⟨roundDiv (num * Nat.pow 2 (k + 1)) den, e⟩

def Dyadic.timesRounded (d : Dyadic) (factor : Nat) : Dyadic :=
  let (n, m) := d.scaled factor
  toDouble n m

end FileQuery.Number
