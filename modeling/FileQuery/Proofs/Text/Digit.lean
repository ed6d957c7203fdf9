import FileQuery.Proofs.Text.Integer
import FileQuery.Proofs.Text.Lower

/-! # Texts of digit signs

Digit signs are blank in no script and stay as they are in lower case (`lowered_of_isDigitSign`). A
text of nothing else is an integer exactly when each sign is a decimal digit and there are not too
many of them (`readDecimal_isOk_iff`). An integer with blanks around it is still read when all the
blanks are taken off (`readDecimal_trim`). -/
set_option autoImplicit false
namespace FileQuery.Text

variable {c : Char} {s : List Char}

/-! ## The signs -/

/-- The code points of digit signs, in closed ranges. -/
def digitRanges : List (Nat × Nat) := zeros.map (fun z => (z, z + 9)) ++ digitSignRanges

theorem digitValue?_isSome_iff :
    (digitValue? c).isSome ↔ ∃ z ∈ zeros, z ≤ c.toNat ∧ c.toNat ≤ z + 9 := by
  simp only [digitValue?, Option.isSome_map, List.find?_isSome, Bool.and_eq_true, decide_eq_true_eq,
    Nat.lt_add_one_iff]

theorem exists_range_of_isDigitSign (sign : isDigitSign c = true) :
    ∃ r ∈ digitRanges, r.1 ≤ c.toNat ∧ c.toNat ≤ r.2 := by
  rw [isDigitSign, Bool.or_eq_true, digitValue?_isSome_iff] at sign
  rcases sign with ⟨z, listed, low, high⟩ | other
  · exact ⟨(z, z + 9), List.mem_append_left _ (List.mem_map_of_mem listed), low, high⟩
  · simp only [inRanges, List.any_eq_true, Bool.and_eq_true, decide_eq_true_eq] at other
    obtain ⟨r, listed, low, high⟩ := other
    exact ⟨r, List.mem_append_right _ listed, low, high⟩

theorem digitRanges_clear : (lowerShifts.all fun s => digitRanges.all fun r =>
    Nat.blt s.last r.1 || Nat.blt r.2 s.first) = true := by
  decide +kernel

theorem isDigitSign_blankCodes : ∀ n ∈ blankCodes, isDigitSign (Char.ofNat n) = false := by
  decide

theorem isBlank_of_isDigitSign (sign : isDigitSign c = true) : isBlank c = false := by
  by_contra blank
  have other := isDigitSign_blankCodes c.toNat (toNat_mem_blankCodes (Bool.not_eq_false _ ▸ blank))
  rw [Char.ofNat_toNat, sign] at other
  cases other

theorem ne_of_isDigitSign {mark : Char} (other : isDigitSign mark = false)
    (sign : isDigitSign c = true) : c ≠ mark := by
  rintro rfl
  rw [other] at sign
  cases sign

theorem toLower_of_isDigitSign : ∀ n < 128, isDigitSign (Char.ofNat n) = true →
    (Char.ofNat n).toLower = Char.ofNat n := by
  decide

theorem lowered_of_isDigitSign (sign : isDigitSign c = true) : Lowered c := by
  refine ⟨?_, ne_of_isDigitSign (by decide) sign⟩
  rw [lowerOf]
  split
  · next ascii =>
      have same := toLower_of_isDigitSign c.toNat ascii
      rw [Char.ofNat_toNat] at same
      rw [same sign]
  · have dotted : c.toNat ≠ 0x130 := by
      intro same
      have letter : isDigitSign (Char.ofNat 0x130) = false := by decide
      rw [← same, Char.ofNat_toNat, sign] at letter
      cases letter
    have kept : ∀ t ∈ lowerShifts, t.covers c.toNat = false := by
      intro t member
      obtain ⟨r, listed, low, high⟩ := exists_range_of_isDigitSign sign
      have apart := List.all_eq_true.mp (List.all_eq_true.mp digitRanges_clear t member) r listed
      rw [Bool.or_eq_true, Nat.blt_eq, Nat.blt_eq] at apart
      rw [← Bool.not_eq_true]
      simp only [Shift.covers, Bool.and_eq_true, decide_eq_true_eq]
      omega
    rw [if_neg dotted, Shift.image_eq_self kept, Char.ofNat_toNat]

/-! ## Their integers -/

theorem digitBelow?_ten (c : Char) : digitBelow? 10 c = digitValue? c := by
  rw [digitBelow?]
  cases found : zeros.find? fun z => decide (z ≤ c.toNat) && decide (c.toNat < z + 10) with
  | none => rw [digitValue?, found]; rfl
  | some z =>
      have within : c.toNat < z + 10 := by
        have here := List.find?_some found
        rw [Bool.and_eq_true, decide_eq_true_eq, decide_eq_true_eq] at here
        exact here.2
      have below : decide (c.toNat - z < 10) = true := decide_eq_true (by omega)
      rw [digitValue?, found, Option.map_some, Option.filter_some, if_pos below]

theorem moreDigits_isSome_iff (unmarked : '_' ∉ s) :
    (moreDigits 10 s).isSome ↔ ∀ c ∈ s, (digitValue? c).isSome := by
  induction s with
  | nil => simp [moreDigits]
  | cons c r ih =>
      rw [List.mem_cons, not_or] at unmarked
      rw [moreDigits_cons (Ne.symm unmarked.1), digitBelow?_ten, List.forall_mem_cons,
        ← ih unmarked.2]
      cases digitValue? c <;> simp

theorem length_moreDigits (unmarked : '_' ∉ s) {ds : List Nat} (read : moreDigits 10 s = some ds) :
    ds.length = s.length := by
  induction s generalizing ds with
  | nil =>
      cases read
      rfl
  | cons c r ih =>
      rw [List.mem_cons, not_or] at unmarked
      rw [moreDigits_cons (Ne.symm unmarked.1)] at read
      obtain ⟨d, -, read⟩ := Option.bind_eq_some_iff.mp read
      obtain ⟨ds', rest, rfl⟩ := Option.map_eq_some_iff.mp read
      rw [List.length_cons, List.length_cons, ih unmarked.2 rest]

/-- Digit signs are an integer just if they are decimal digits and not too many. -/
theorem readDecimal_isOk_iff (signs : ∀ c ∈ s, isDigitSign c = true) (nonempty : s ≠ []) :
    (readDecimal s).isOk ↔ (∀ c ∈ s, (digitValue? c).isSome) ∧ s.length ≤ maxDecimalDigits := by
  have unmarked : '_' ∉ s := fun member =>
    ne_of_isDigitSign (by decide) (signs '_' member) rfl
  have trimmed : trimInteger s = s :=
    trimInteger_eq_self fun c member => isBlank_of_isDigitSign (signs c member)
  have unsigned : cutSign s = (false, s) := cutSign_of_unsigned fun c member =>
    ⟨ne_of_isDigitSign (by decide) (signs c member), ne_of_isDigitSign (by decide) (signs c member)⟩
  rw [readDecimal, trimmed, unsigned]
  simp only [digits?_eq_moreDigits unmarked nonempty, ← moreDigits_isSome_iff unmarked]
  cases read : moreDigits 10 s with
  | none => simp [Except.isOk, Except.toBool]
  | some ds =>
      rw [← length_moreDigits unmarked read]
      simp only [Option.isSome_some, true_and]
      split
      · next long => simp [Except.isOk, Except.toBool, long]
      · next short => simp [Except.isOk, Except.toBool, Nat.not_lt.mp short]

/-! ## Blanks around -/

theorem isDigitSign_of_digitBelow? {base d : Nat} (read : digitBelow? base c = some d) :
    isDigitSign c = true := by
  obtain ⟨value, -⟩ := Option.filter_eq_some_iff.mp read
  rw [isDigitSign, value]
  rfl

theorem mem_of_moreDigits {base : Nat} {ds : List Nat} (read : moreDigits base s = some ds) :
    ∀ c ∈ s, c = '_' ∨ isDigitSign c = true := by
  fun_induction moreDigits base s generalizing ds with
  | case1 => simp
  | case2 c r ih =>
      obtain ⟨d, digit, read⟩ := Option.bind_eq_some_iff.mp read
      obtain ⟨ds', rest, -⟩ := Option.bind_eq_some_iff.mp read
      refine List.forall_mem_cons.mpr ⟨.inl rfl, List.forall_mem_cons.mpr ⟨?_, ih rest⟩⟩
      exact .inr (isDigitSign_of_digitBelow? digit)
  | case3 c r _ ih =>
      obtain ⟨d, digit, read⟩ := Option.bind_eq_some_iff.mp read
      obtain ⟨ds', rest, -⟩ := Option.bind_eq_some_iff.mp read
      exact List.forall_mem_cons.mpr ⟨.inr (isDigitSign_of_digitBelow? digit), ih rest⟩

theorem mem_of_digits? {base : Nat} {ds : List Nat} (read : digits? base s = some ds) :
    s ≠ [] ∧ ∀ c ∈ s, c = '_' ∨ isDigitSign c = true := by
  cases s with
  | nil => cases read
  | cons c r =>
      obtain ⟨d, digit, read⟩ := Option.bind_eq_some_iff.mp read
      obtain ⟨ds', rest, -⟩ := Option.bind_eq_some_iff.mp read
      refine ⟨List.cons_ne_nil c r, ?_⟩
      exact List.forall_mem_cons.mpr ⟨.inr (isDigitSign_of_digitBelow? digit), mem_of_moreDigits rest⟩

theorem mem_of_cutSign (member : c ∈ s) : c = '-' ∨ c = '+' ∨ c ∈ (cutSign s).2 := by
  unfold cutSign
  split
  · exact (List.mem_cons.mp member).imp_right .inr
  · rcases List.mem_cons.mp member with plus | behind
    · exact .inr (.inl plus)
    · exact .inr (.inr behind)
  · exact .inr (.inr member)

/-- Between the blanks an integer has a sign, digit signs and underscores, none of them a blank or a
quote. -/
theorem solid_of_readDecimal {n : Int} (read : readDecimal s = .ok n) :
    trimInteger s ≠ [] ∧ ∀ c ∈ trimInteger s, isBlank c = false ∧ c ≠ '"' ∧ c ≠ '\'' := by
  rw [readDecimal] at read
  cases cut : cutSign (trimInteger s) with
  | mk negative body =>
      simp only [cut] at read
      cases digits : digits? 10 body with
      | none => simp only [digits] at read; cases read
      | some ds =>
          obtain ⟨nonempty, signs⟩ := mem_of_digits? digits
          constructor
          · intro none
            rw [none] at cut
            exact nonempty (Prod.mk.inj cut).2.symm
          · intro c member
            rcases mem_of_cutSign member with rfl | rfl | behind
            · decide
            · decide
            · rw [cut] at behind
              rcases signs c behind with rfl | sign
              · decide
              · exact ⟨isBlank_of_isDigitSign sign, ne_of_isDigitSign (by decide) sign,
                  ne_of_isDigitSign (by decide) sign⟩

theorem isBlank_of_isIntegerBlank (blank : isIntegerBlank c = true) : isBlank c = true :=
  (Bool.and_eq_true_iff.mp blank).1

theorem exists_trimInteger (s : List Char) :
    ∃ lead trail, Blanks lead ∧ Blanks trail ∧ s = lead ++ (trimInteger s ++ trail) := by
  refine ⟨s.takeWhile isIntegerBlank,
    ((s.dropWhile isIntegerBlank).reverse.takeWhile isIntegerBlank).reverse, ?_, ?_, ?_⟩
  · exact fun c member => isBlank_of_isIntegerBlank (List.mem_takeWhile_imp member)
  · exact fun c member =>
      isBlank_of_isIntegerBlank (List.mem_takeWhile_imp (List.mem_reverse.mp member))
  · rw [trimInteger, ← List.reverse_append, List.takeWhile_append_dropWhile, List.reverse_reverse,
      List.takeWhile_append_dropWhile]

theorem trim_of_readDecimal {n : Int} (read : readDecimal s = .ok n) : trim s = trimInteger s := by
  obtain ⟨-, solid⟩ := solid_of_readDecimal read
  obtain ⟨lead, trail, left, right, same⟩ := exists_trimInteger s
  have kept : trim (trimInteger s) = trimInteger s := trim_eq_self_iff.mpr
    ⟨fun c member => (solid c (List.mem_of_mem_head? member)).1,
      fun c member => (solid c (List.mem_of_getLast? member)).1⟩
  have padded := trim_pad left right (trimInteger s)
  rwa [List.append_assoc, ← same, kept] at padded

theorem readDecimal_trim {n : Int} (read : readDecimal s = .ok n) : readDecimal (trim s) = .ok n := by
  obtain ⟨-, solid⟩ := solid_of_readDecimal read
  rw [trim_of_readDecimal read, readDecimal, trimInteger_eq_self fun c member => (solid c member).1,
    ← readDecimal, read]

end FileQuery.Text
