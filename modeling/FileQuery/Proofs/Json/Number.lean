import FileQuery.Json.Document
import FileQuery.Json.Printer
import FileQuery.Proofs.Text.Integer

/-! Integers as they are written in a document are read back, whatever does not go on with a number
stands behind them, unless they have more digits than the reader takes. -/
set_option autoImplicit false
namespace FileQuery.Json

/-- Reads a value at the head of a text, and leaves what follows it. -/
def Reads {α : Type} (read : Rest → Except ReadError (α × Rest)) (text : List Char) (x : α)
    (rest : List Char) : Prop :=
  ∀ offset, ∃ offset', read ⟨offset, text⟩ = .ok (x, ⟨offset', rest⟩)

def Stops (s : List Char) : Prop :=
  ∀ c ∈ s.head?, isDigit c = false ∧ c ≠ '.' ∧ c ≠ 'e' ∧ c ≠ 'E'

def Fits (limit : Option Nat) (n : Int) : Prop :=
  ∀ most ∈ limit, (Text.digitsOf 10 n.natAbs).length ≤ most

theorem fits_none (n : Int) : Fits none n := by simp [Fits]

theorem isDigit_iff {c : Char} : isDigit c = true ↔ 48 ≤ c.toNat ∧ c.toNat < 48 + 10 := by
  simp only [isDigit, Bool.and_eq_true, decide_eq_true_eq, Char.le_def, UInt32.le_iff_toNat_le]
  exact and_congr_right fun _ => Nat.lt_succ_iff.symm

theorem isDigit_of_mem_digitsOf {n : Nat} {c : Char} (member : c ∈ Text.digitsOf 10 n) :
    isDigit c = true :=
  isDigit_iff.mpr (Text.plain_digitsOf (by decide) le_rfl n c member)

theorem digitsOf_eq_cons (n : Nat) : ∃ c r, Text.digitsOf 10 n = c :: r ∧
    isDigit c = true ∧ (c = '0' → r = []) := by
  -- the recursion takes the last digit off, so the first is that of a smaller number
  induction n using Nat.strong_induction_on with
  | _ n ih =>
      rw [Text.digitsOf, Nat.toDigits_eq_if (by decide)]
      split
      · next single =>
          refine ⟨_, [], rfl, isDigit_iff.mpr ?_, fun _ => rfl⟩
          rw [Nat.toNat_digitChar_of_lt_ten single]
          omega
      · next more =>
          obtain ⟨c, r, digits, digit, lone⟩ := ih (n / 10) (by omega)
          rw [Text.digitsOf] at digits
          refine ⟨c, _, by rw [digits, List.cons_append], digit, fun zero => ?_⟩
          have value : Nat.ofDigitChars 10 (Nat.toDigits 10 (n / 10)) 0 = n / 10 :=
            Nat.ofDigitChars_toDigits (by decide) (by decide)
          rw [digits, lone zero, zero] at value
          have none : Nat.ofDigitChars 10 ['0'] 0 = 0 := by decide
          omega

theorem numberOf_digitsOf (n : Nat) : numberOf (Text.digitsOf 10 n) = n := by
  have same : numberOf (Text.digitsOf 10 n) = Nat.ofDigitChars 10 (Text.digitsOf 10 n) 0 := by
    rw [numberOf, Nat.ofDigitChars_eq_foldl]
    congr 1
    funext m c
    rw [Nat.mul_comm]
    rfl
  rw [same, Text.digitsOf, Nat.ofDigitChars_toDigits (by decide) (by decide)]

theorem word?_intText (n : Int) (rest : List Char) : word? (intText n ++ rest) = none := by
  obtain ⟨c, r, digits, digit, _⟩ := digitsOf_eq_cons n.natAbs
  have other (d : Char) (letter : isDigit d = false) : d ≠ c := by
    rintro rfl
    rw [digit] at letter
    cases letter
  have none : ∀ w ∈ words, w.1.toList.isPrefixOf (intText n ++ rest) = false := by
    rw [intText, Text.toList_toString, digits]
    split <;> simp [words, List.isPrefixOf, other 'n' rfl, other 't' rfl, other 'f' rfl,
      other 'N' rfl, other 'I' rfl, other '-' rfl]
  rw [word?, List.find?_eq_none.mpr fun w member => by simp [none w member]]
  rfl

section Behind
variable {rest : List Char} (stops : Stops rest)
include stops

theorem cutWhole?_digitsOf (n : Nat) :
    cutWhole? (Text.digitsOf 10 n ++ rest) = some (Text.digitsOf 10 n, rest) := by
  have digits (r : List Char) (own : ∀ c ∈ r, isDigit c = true) :
      (r ++ rest).takeWhile isDigit = r ∧ (r ++ rest).dropWhile isDigit = rest := by
    rw [List.takeWhile_append_of_pos own, List.dropWhile_append_of_pos own]
    cases rest with
    | nil => simp
    | cons d rest => simp [(stops d rfl).1]
  obtain ⟨c, r, same, digit, lone⟩ := digitsOf_eq_cons n
  have own : ∀ d ∈ r, isDigit d = true := fun d member =>
    isDigit_of_mem_digitsOf (n := n) (same ▸ List.mem_cons_of_mem _ member)
  rw [same, List.cons_append]
  by_cases zero : c = '0'
  · rw [zero, lone zero]
    rfl
  · rw [cutWhole?, if_pos digit, (digits r own).1, (digits r own).2]
    exact zero

theorem cutFraction_of_stops : cutFraction rest = ([], rest) := by
  rw [cutFraction.eq_def]
  split
  · exact absurd rfl (stops _ rfl).2.1
  · rfl

theorem cutExponent?_of_stops : cutExponent? rest = none := by
  cases rest with
  | nil => rfl
  | cons c rest =>
      obtain ⟨_, _, lower, upper⟩ := stops c rfl
      rw [cutExponent?, if_neg (by simp [lower, upper])]

variable {limit : Option Nat} {n : Int} (fits : Fits limit n)
include fits

theorem cutNumber?_intText :
    cutNumber? limit (intText n ++ rest) = some (.ok (.int n), rest) := by
  have short : limit.any (· < (Text.digitsOf 10 n.natAbs).length) = false := by
    cases limit with
    | none => rfl
    | some most => simpa using fits most rfl
  have body (negative : Bool) {s : List Char}
      (cut : cutMinus s = (negative, Text.digitsOf 10 n.natAbs ++ rest)) :
      cutNumber? limit s = some (.ok (.int (Text.signed negative n.natAbs)), rest) := by
    unfold cutNumber?
    rw [cut]
    dsimp only
    rw [cutWhole?_digitsOf stops, Option.map_some]
    dsimp only
    rw [cutFraction_of_stops stops]
    dsimp only
    rw [cutExponent?_of_stops stops]
    dsimp only
    rw [short, numberOf_digitsOf]
    rfl
  rw [intText, Text.toList_toString]
  split
  · next positive =>
      obtain ⟨c, r, digits, digit, _⟩ := digitsOf_eq_cons n.natAbs
      have cut := body false (s := Text.digitsOf 10 n.natAbs ++ rest) (by
        rw [digits, List.cons_append, cutMinus]
        rintro r' same
        rw [(List.cons.inj same).1] at digit
        cases digit)
      rw [cut, Text.signed, if_neg Bool.false_ne_true, Int.natAbs_of_nonneg positive]
  · next negative =>
      rw [List.cons_append, body true rfl, Text.signed, if_pos rfl]
      have value : -(n.natAbs : Int) = n := by omega
      rw [value]

theorem reads_intText : Reads (readScalar limit) (intText n ++ rest) (.int n) rest := by
  intro offset
  have read : readScalar limit ⟨offset, intText n ++ rest⟩ =
      .ok (.int n, Rest.skip ⟨offset, intText n ++ rest⟩
        ((intText n ++ rest).length - rest.length)) := by
    rw [readScalar, word?_intText]
    dsimp only
    rw [cutNumber?_intText stops fits]
  rw [Rest.skip, List.length_append, Nat.add_sub_cancel, List.drop_left] at read
  exact ⟨_, read⟩

end Behind

end FileQuery.Json
