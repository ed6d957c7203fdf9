import FileQuery.Text.Integer
import Mathlib.Algebra.Group.Nat.Defs
import Mathlib.Data.List.DropRight

/-! # Numbers as they are written

Plain digits are read for what they stand for, so the decimal text of an integer is read back as that
integer (`readDecimal_toString`), and octal text as what it was written for (`readOctal?_octal`); so
are the digits of a number that is padded with zeros (`ofDigits_padded`). -/
set_option autoImplicit false
namespace FileQuery.Text

def Plain (base : Nat) (s : List Char) : Prop := ∀ c ∈ s, 48 ≤ c.toNat ∧ c.toNat < 48 + base

def valuesOf (s : List Char) : List Nat := s.map fun c => c.toNat - 48

theorem isDigit_iff {c : Char} : c.isDigit = true ↔ 48 ≤ c.toNat ∧ c.toNat < 48 + 10 := by
  simp only [Char.isDigit, Bool.and_eq_true, decide_eq_true_eq, UInt32.le_iff_toNat_le]
  exact and_congr_right fun _ => Nat.lt_succ_iff.symm

section Digits
variable {base : Nat} {s : List Char} {c : Char}

theorem Plain.tail {r : List Char} (plain : Plain base (c :: r)) : Plain base r :=
  fun d member => plain d (List.mem_cons_of_mem _ member)

theorem Plain.isDigit (plain : Plain base s) (small : base ≤ 10) (member : c ∈ s) :
    c.isDigit = true := by
  have digit := plain c member
  exact isDigit_iff.mpr ⟨digit.1, by omega⟩

theorem ne_of_isDigit {d : Char} (digit : c.isDigit = true) (other : d.isDigit = false) : c ≠ d := by
  rintro rfl
  rw [digit] at other
  cases other

theorem isBlank_of_isDigit (digit : c.isDigit = true) : isBlank c = false := by
  rw [isDigit_iff] at digit
  simp only [isBlank, Bool.or_eq_false_iff, Bool.and_eq_false_iff, decide_eq_false_iff_not,
    beq_eq_false_iff_ne]
  omega

theorem digitBelow?_of_digit (small : base ≤ 10) (first : 48 ≤ c.toNat) (last : c.toNat < 48 + base) :
    digitBelow? base c = some (c.toNat - 48) := by
  have here : (decide (48 ≤ c.toNat) && decide (c.toNat < 48 + 10)) = true := by
    simp only [Bool.and_eq_true, decide_eq_true_eq]
    omega
  have found : zeros.find? (fun z => decide (z ≤ c.toNat) && decide (c.toNat < z + 10)) = some 48 :=
    List.find?_cons_of_pos here
  have below : decide (c.toNat - 48 < base) = true := by
    rw [decide_eq_true_eq]
    omega
  rw [digitBelow?, digitValue?, found, Option.map_some, Option.filter_some, if_pos below]

theorem moreDigits_cons (unmarked : c ≠ '_') (r : List Char) :
    moreDigits base (c :: r) =
      (digitBelow? base c).bind fun d => (moreDigits base r).map fun ds => d :: ds := by
  rw [moreDigits]
  · cases digitBelow? base c with
    | none => rfl
    | some d => cases moreDigits base r <;> rfl
  · exact fun _ _ same => absurd same unmarked

theorem digits?_eq_moreDigits (unmarked : '_' ∉ s) (nonempty : s ≠ []) :
    digits? base s = moreDigits base s := by
  cases s with
  | nil => exact absurd rfl nonempty
  | cons c r =>
      rw [List.mem_cons, not_or] at unmarked
      rw [moreDigits_cons (Ne.symm unmarked.1), digits?]
      cases digitBelow? base c with
      | none => rfl
      | some d => cases moreDigits base r <;> rfl

theorem cutSign_of_unsigned (unsigned : ∀ c ∈ s, c ≠ '-' ∧ c ≠ '+') : cutSign s = (false, s) := by
  cases s with
  | nil => rfl
  | cons c r =>
      obtain ⟨minus, plus⟩ := unsigned c List.mem_cons_self
      rw [cutSign]
      · rintro r' ⟨⟩
        exact minus rfl
      · rintro r' ⟨⟩
        exact plus rfl

section
variable (plain : Plain base s) (small : base ≤ 10)
include plain small

theorem moreDigits_plain : moreDigits base s = some (valuesOf s) := by
  induction s with
  | nil => rfl
  | cons c r ih =>
      have digit := plain c (by simp)
      have mark : c ≠ '_' := ne_of_isDigit (plain.isDigit small (by simp)) (by decide)
      rw [moreDigits_cons mark, digitBelow?_of_digit small digit.1 digit.2, ih plain.tail]
      rfl

theorem digits?_plain (nonempty : s ≠ []) : digits? base s = some (valuesOf s) := by
  have unmarked : '_' ∉ s := fun member =>
    ne_of_isDigit (plain.isDigit small member) (by decide) rfl
  rw [digits?_eq_moreDigits unmarked nonempty, moreDigits_plain plain small]

theorem cutSign_plain : cutSign s = (false, s) :=
  cutSign_of_unsigned fun _ member =>
    have digit := plain.isDigit small member
    ⟨ne_of_isDigit digit (by decide), ne_of_isDigit digit (by decide)⟩

theorem dropOctalMark_plain : dropOctalMark s = s := by
  rcases s with _ | ⟨z, _ | ⟨o, r⟩⟩
  · rfl
  · rfl
  · have digit := plain.isDigit small (c := o) (by simp)
    have lower : o ≠ 'o' := ne_of_isDigit digit (by decide)
    have upper : o ≠ 'O' := ne_of_isDigit digit (by decide)
    simp [dropOctalMark, lower, upper]

end

theorem ofDigits_valuesOf : ofDigits base (valuesOf s) = Nat.ofDigitChars base s 0 := by
  rw [ofDigits, valuesOf, List.foldl_map, Nat.ofDigitChars_eq_foldl]
  congr 1
  funext n c
  rw [Nat.mul_comm]
  rfl

theorem dropWhile_isIntegerBlank {r : List Char} (kept : ∀ c ∈ s.head?, isBlank c = false)
    (nonempty : s ≠ []) : (s ++ r).dropWhile isIntegerBlank = s ++ r := by
  cases s with
  | nil => exact absurd rfl nonempty
  | cons c s => exact List.dropWhile_cons_of_neg (by simp [isIntegerBlank, kept c rfl])

theorem trimInteger_append {gap : List Char} (kept : ∀ c ∈ s, isBlank c = false) (nonempty : s ≠ [])
    (blank : ∀ c ∈ gap, isIntegerBlank c = true) : trimInteger (s ++ gap) = s := by
  have first := dropWhile_isIntegerBlank (r := gap)
    (fun c member => kept c (List.mem_of_mem_head? member)) nonempty
  have last : s.reverse.dropWhile isIntegerBlank = s.reverse := by
    have whole := dropWhile_isIntegerBlank (s := s.reverse) (r := [])
      (fun c member => kept c (List.mem_reverse.mp (List.mem_of_mem_head? member)))
      (by simpa using nonempty)
    rwa [List.append_nil] at whole
  rw [trimInteger, first, List.reverse_append, List.dropWhile_append_of_pos
    (fun c member => blank c (List.mem_reverse.mp member)), last, List.reverse_reverse]

theorem trimInteger_eq_self (kept : ∀ c ∈ s, isBlank c = false) : trimInteger s = s := by
  cases s with
  | nil => rfl
  | cons c r =>
      have whole := trimInteger_append kept (by simp) (List.forall_mem_nil _)
      rwa [List.append_nil] at whole

theorem ofDigits_lt (plain : Plain base s) :
    ofDigits base (valuesOf s) < base ^ s.length := by
  -- one more than the places in front, since the digits behind them stand for less than one there
  have places (n : Nat) :
      (valuesOf s).foldl (fun n d => n * base + d) n < (n + 1) * base ^ s.length := by
    induction s generalizing n with
    | nil => simp [valuesOf]
    | cons c r ih =>
        have digit := plain c (by simp)
        have step : n * base + (c.toNat - 48) + 1 ≤ (n + 1) * base := by
          rw [Nat.add_mul]
          omega
        calc (valuesOf (c :: r)).foldl (fun n d => n * base + d) n
            = (valuesOf r).foldl (fun n d => n * base + d) (n * base + (c.toNat - 48)) := rfl
          _ < (n * base + (c.toNat - 48) + 1) * base ^ r.length := ih plain.tail _
          _ ≤ (n + 1) * base * base ^ r.length := Nat.mul_le_mul_right _ step
          _ = (n + 1) * base ^ (c :: r).length := by
              rw [List.length_cons, Nat.pow_succ, Nat.mul_assoc, Nat.mul_comm base]
  have whole := places 0
  rwa [Nat.zero_add, Nat.one_mul] at whole

/-! ## Written digits -/

variable (some : 1 < base) (small : base ≤ 10) (n : Nat)
include some small

theorem plain_digitsOf : Plain base (digitsOf base n) := by
  -- the recursion takes the last digit off
  induction n using Nat.strong_induction_on with
  | _ n ih =>
      have last (d : Nat) (below : d < base) : Plain base [d.digitChar] := by
        intro c member
        rw [List.mem_singleton.mp member, Nat.toNat_digitChar_of_lt_ten (by omega)]
        omega
      rw [digitsOf, Nat.toDigits_eq_if some]
      split
      · next single => exact last n single
      · next more =>
          intro c member
          rcases List.mem_append.mp member with member | member
          · exact ih (n / base) (Nat.div_lt_self (by omega) some) c member
          · exact last (n % base) (Nat.mod_lt _ (by omega)) c member

theorem plain_zeros (width : Nat) :
    Plain base (List.replicate (width - (digitsOf base n).length) '0' ++ digitsOf base n) := by
  intro c member
  rcases List.mem_append.mp member with zero | digit
  · rw [List.eq_of_mem_replicate zero]
    exact ⟨le_rfl, Nat.lt_add_of_pos_right (by omega)⟩
  · exact plain_digitsOf some small n c digit

theorem ofDigits_zeros (k : Nat) :
    ofDigits base (valuesOf (List.replicate k '0' ++ digitsOf base n)) = n := by
  rw [ofDigits_valuesOf, Nat.ofDigitChars_append, Nat.ofDigitChars_replicate_zero, Nat.mul_zero,
    digitsOf, Nat.ofDigitChars_toDigits some small]

end Digits

/-! ## Decimal and octal texts -/

theorem toList_toString (n : Int) :
    (toString n).toList = if 0 ≤ n then digitsOf 10 n.natAbs else '-' :: digitsOf 10 n.natAbs := by
  rw [Int.toString_eq_repr, Int.repr_eq_if]
  split
  · next positive =>
      rw [Nat.toList_repr, digitsOf, ← Int.natAbs_of_nonneg positive]
      rfl
  · next negative =>
      have same : (-n).toNat = n.natAbs := by omega
      rw [String.toList_append, Nat.toList_repr, same]
      rfl

theorem readDecimal_toString {n : Int} (short : n.natAbs < 10 ^ maxDecimalDigits) :
    readDecimal (toString n).toList = .ok n := by
  have plain : Plain 10 (digitsOf 10 n.natAbs) := plain_digitsOf (by decide) le_rfl n.natAbs
  have digits : ∀ c ∈ digitsOf 10 n.natAbs, isBlank c = false := fun c member =>
    isBlank_of_isDigit (plain.isDigit le_rfl member)
  have read := digits?_plain plain le_rfl Nat.toDigits_ne_nil
  have count : ¬ maxDecimalDigits < (valuesOf (digitsOf 10 n.natAbs)).length := by
    rw [valuesOf, List.length_map, Nat.not_lt]
    exact (Nat.length_toDigits_le_iff (by decide) (by decide)).mpr short
  have value : ofDigits 10 (valuesOf (digitsOf 10 n.natAbs)) = n.natAbs :=
    ofDigits_zeros (by decide) le_rfl n.natAbs 0
  rw [readDecimal, toList_toString]
  by_cases positive : 0 ≤ n
  · rw [if_pos positive, trimInteger_eq_self digits, cutSign_plain plain le_rfl]
    simp only [read, if_neg count, value, signed, Bool.false_eq_true, if_false]
    congr 1
    omega
  · have kept : ∀ c ∈ '-' :: digitsOf 10 n.natAbs, isBlank c = false := by
      intro c member
      rcases List.mem_cons.mp member with rfl | member
      · decide
      · exact digits c member
    rw [if_neg positive, trimInteger_eq_self kept, cutSign]
    simp only [read, if_neg count, value, signed, if_true]
    congr 1
    omega

/-- Octal digits are read for what they stand for, with anything around them that is taken off. -/
theorem readOctal?_of_trimInteger {s digits : List Char} (trimmed : trimInteger s = digits)
    (plain : Plain 8 digits) (nonempty : digits ≠ []) :
    readOctal? s = some (ofDigits 8 (valuesOf digits) : Int) := by
  have small : 8 ≤ 10 := by decide
  rw [readOctal?, trimmed, cutSign_plain plain small]
  simp only [dropOctalMark_plain plain small, digits?_plain plain small nonempty, Option.map_some,
    signed, Bool.false_eq_true, if_false]

theorem readOctal?_octal (width n : Nat) : readOctal? (octal width n).toList = some (n : Int) := by
  have small : 8 ≤ 10 := by decide
  let text := List.replicate (width - (digitsOf 8 n).length) '0' ++ digitsOf 8 n
  have plain : Plain 8 text := plain_zeros (by decide) small n width
  have nonempty : text ≠ [] := by
    rw [ne_eq, List.append_eq_nil_iff]
    exact fun empty => Nat.toDigits_ne_nil empty.2
  have value : ofDigits 8 (valuesOf text) = n := ofDigits_zeros (by decide) small n _
  have same : (octal width n).toList = text := String.toList_ofList
  have trimmed : trimInteger text = text := trimInteger_eq_self fun c member =>
    isBlank_of_isDigit (plain.isDigit small member)
  rw [same, readOctal?_of_trimInteger trimmed plain nonempty, value]

/-! ## Padded texts -/

theorem plain_padded (width n : Nat) : Plain 10 (padded width n).toList := by
  rw [padded, String.toList_ofList]
  exact plain_zeros (by decide) le_rfl n width

theorem length_padded {width n : Nat} (short : n < 10 ^ width) (some : 0 < width) :
    (padded width n).toList.length = width := by
  have count : (digitsOf 10 n).length ≤ width :=
    (Nat.length_toDigits_le_iff (by decide) some).mpr short
  rw [padded, String.toList_ofList, List.length_append, List.length_replicate]
  omega

theorem ofDigits_padded (width n : Nat) : ofDigits 10 (valuesOf (padded width n).toList) = n := by
  rw [padded, String.toList_ofList]
  exact ofDigits_zeros (by decide) le_rfl n _

end FileQuery.Text
