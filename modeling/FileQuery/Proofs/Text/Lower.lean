import FileQuery.Proofs.Text.Blank
import FileQuery.Proofs.Text.Case
import FileQuery.Record
import Mathlib.Data.Bool.AllAny

/-! # Lower case

What is in lower case stays as it is when it is lowered again (`lowerAfter_eq_self`): no code point
that the table leads to is one that it leads away from (`lowerShifts_clear`). No blank comes out of
another character, so an extension that is normalised stays as it is, too
(`normalizeExtension_normalizeExtension`). -/
set_option autoImplicit false
namespace FileQuery.Text

/-! ## The table -/

namespace Shift

/-- Whether a shift leads to nothing that another covers, told from their ends, and from the parity of
code points that both take in steps of two. -/
def clearOf (s t : Shift) : Bool :=
  Nat.blt (s.apply s.last) t.first || Nat.blt t.last (s.apply s.first) ||
    ((Nat.beq s.step 2 || Nat.beq s.first s.last) && Nat.beq t.step 2 &&
      Nat.beq ((s.apply s.first + t.first) % 2) 1)

theorem not_covers_apply {s t : Shift} (start : 0 ≤ s.first + s.delta) (clear : s.clearOf t = true)
    {n : Nat} (covered : s.covers n = true) : t.covers (s.apply n) = false := by
  simp only [covers, Bool.and_eq_true, decide_eq_true_eq, beq_iff_eq] at covered
  obtain ⟨⟨first, last⟩, step⟩ := covered
  simp only [clearOf, Bool.or_eq_true, Bool.and_eq_true, Nat.blt_eq, Nat.beq_eq] at clear
  rw [← Bool.not_eq_true]
  simp only [covers, Bool.and_eq_true, decide_eq_true_eq, beq_iff_eq]
  simp only [apply] at clear ⊢
  rintro ⟨⟨first', last'⟩, step'⟩
  rcases clear with (below | above) | ⟨⟨single, two⟩, parity⟩
  · omega
  · omega
  · rw [two] at step'
    rcases single with steps | same
    · rw [steps] at step
      omega
    · omega

theorem image_eq_self {shifts : List Shift} {n : Nat} (none : ∀ t ∈ shifts, t.covers n = false) :
    image shifts n = n := by
  have found : shifts.find? (fun s => s.covers n) = Option.none := by
    rw [List.find?_eq_none]
    intro t member
    simp [none t member]
  rw [image, found]

end Shift

/-- Code points that nothing is lowered to: capitals of ASCII, the capital sigma, the dotted capital I,
blanks, and numbers that are no characters. -/
def neverLowered : List Shift :=
  ⟨65, 90, 1, 0⟩ :: ⟨0xD800, 0xDFFF, 1, 0⟩ :: ⟨0x110000, 0x1000000, 1, 0⟩ ::
    (931 :: 0x130 :: blankCodes).map fun n => ⟨n, n, 1, 0⟩

theorem lowerShifts_start : ∀ s ∈ lowerShifts, 0 ≤ s.first + s.delta ∧ s.apply s.last < 0x1000000 := by
  decide +kernel

theorem lowerShifts_clear : (lowerShifts.all fun s => lowerShifts.all s.clearOf) = true := by
  decide +kernel

theorem neverLowered_clear :
    (neverLowered.all fun t => lowerShifts.all fun s => s.clearOf t) = true := by
  decide

/-! ## Characters -/

/-- A character that lower case leaves as it is, wherever it stands. -/
structure Lowered (c : Char) : Prop where
  lowerOf_eq : lowerOf c = [c]
  ne_sigma : c ≠ 'Σ'

instance (c : Char) : Decidable (Lowered c) :=
  decidable_of_iff (lowerOf c = [c] ∧ c ≠ 'Σ') ⟨fun h => ⟨h.1, h.2⟩, fun h => ⟨h.1, h.2⟩⟩

theorem lowered_ascii : ∀ n < 128, Lowered (Char.ofNat n).toLower ∧
    (isBlank (Char.ofNat n) = false → isBlank (Char.ofNat n).toLower = false) := by
  decide

/-- What the table leads to is a character that it leads nowhere from, and no blank. -/
theorem lowered_apply {s : Shift} (member : s ∈ lowerShifts) {n : Nat} (covered : s.covers n = true) :
    Lowered (Char.ofNat (s.apply n)) ∧ isBlank (Char.ofNat (s.apply n)) = false := by
  obtain ⟨start, stop⟩ := lowerShifts_start s member
  have apart (t : Shift) (clear : s.clearOf t = true) := Shift.not_covers_apply start clear covered
  have settled : ∀ t ∈ lowerShifts, t.covers (s.apply n) = false := fun t other =>
    apart t (List.all_eq_true.mp (List.all_eq_true.mp lowerShifts_clear s member) t other)
  have never : ∀ t ∈ neverLowered, t.covers (s.apply n) = false := fun t other =>
    apart t (List.all_eq_true.mp (List.all_eq_true.mp neverLowered_clear t other) s member)
  have bound : s.apply n < 0x1000000 := by
    simp only [Shift.covers, Bool.and_eq_true, decide_eq_true_eq] at covered
    simp only [Shift.apply] at stop ⊢
    omega
  have within {first last : Nat} (listed : ⟨first, last, 1, 0⟩ ∈ neverLowered) :
      ¬ (first ≤ s.apply n ∧ s.apply n ≤ last) := by
    have out := never _ listed
    simp only [Shift.covers, Nat.mod_one, beq_self_eq_true, Bool.and_true, Bool.and_eq_false_iff,
      decide_eq_false_iff_not] at out
    omega
  have single {m : Nat} (listed : m ∈ 931 :: 0x130 :: blankCodes) : s.apply n ≠ m := by
    intro same
    have there : (⟨m, m, 1, 0⟩ : Shift) ∈ neverLowered :=
      List.mem_cons_of_mem _ (List.mem_cons_of_mem _ (List.mem_cons_of_mem _
        (List.mem_map.mpr ⟨m, listed, rfl⟩)))
    exact within there ⟨same.ge, same.le⟩
  have capital : ¬ (65 ≤ s.apply n ∧ s.apply n ≤ 90) := within (by simp [neverLowered])
  have surrogate : ¬ (0xD800 ≤ s.apply n ∧ s.apply n ≤ 0xDFFF) := within (by simp [neverLowered])
  have beyond : ¬ (0x110000 ≤ s.apply n ∧ s.apply n ≤ 0x1000000) := within (by simp [neverLowered])
  have valid : (s.apply n).isValidChar := by
    rw [Nat.isValidChar]
    omega
  have number : (Char.ofNat (s.apply n)).toNat = s.apply n := by
    rw [Char.ofNat, dif_pos valid]
    rfl
  refine ⟨⟨?_, ?_⟩, ?_⟩
  · rw [lowerOf, number]
    split
    · refine congrArg (fun c => [c]) (dif_neg ?_)
      rintro ⟨low, high⟩
      rw [← number] at capital
      exact capital ⟨UInt32.le_iff_toNat_le.mp low, UInt32.le_iff_toNat_le.mp high⟩
    · rw [if_neg (single (by simp)), Shift.image_eq_self settled]
  · intro same
    refine single (m := 931) (by simp) ?_
    rw [← number, same]
    rfl
  · by_contra blank
    have listed := toNat_mem_blankCodes (Bool.not_eq_false _ ▸ blank)
    rw [number] at listed
    exact single (by simp [listed]) rfl

/-- Lower case gives characters that it leaves as they are, and no blank that was none. -/
theorem lowered_of_mem_lowerOf {c d : Char} (other : c ≠ 'Σ') (member : d ∈ lowerOf c) :
    Lowered d ∧ (isBlank c = false → isBlank d = false) := by
  rw [lowerOf] at member
  split at member
  · next ascii =>
      obtain rfl := List.mem_singleton.mp member
      have low := lowered_ascii c.toNat ascii
      rwa [Char.ofNat_toNat] at low
  · next beyond =>
      split at member
      · have dotted : ∀ d ∈ ['i', Char.ofNat 0x307], Lowered d ∧ isBlank d = false :=
          List.all_iff_forall_prop.mp (by decide)
        exact ⟨(dotted d member).1, fun _ => (dotted d member).2⟩
      · next plain =>
          obtain rfl := List.mem_singleton.mp member
          rcases found : lowerShifts.find? (fun s => s.covers c.toNat) with _ | s
          · have kept : Shift.image lowerShifts c.toNat = c.toNat := by rw [Shift.image, found]
            rw [kept, Char.ofNat_toNat]
            refine ⟨⟨?_, other⟩, id⟩
            rw [lowerOf, if_neg beyond, if_neg plain, kept, Char.ofNat_toNat]
          · have leads : Shift.image lowerShifts c.toNat = s.apply c.toNat := by rw [Shift.image, found]
            have low := lowered_apply (List.mem_of_find?_eq_some found)
              (by simpa using List.find?_some found)
            rw [leads]
            exact ⟨low.1, fun _ => low.2⟩

/-! ## Texts -/

theorem lowerAfter_eq_self {s : List Char} (lowered : ∀ c ∈ s, Lowered c) :
    ∀ before : List Char, lowerAfter before s = s := by
  induction s with
  | nil => exact fun _ => rfl
  | cons c r ih =>
      intro before
      have here := lowered c (by simp)
      rw [lowerAfter, if_neg here.ne_sigma, here.lowerOf_eq,
        ih fun d member => lowered d (List.mem_cons_of_mem _ member)]
      rfl

theorem mem_lowerAfter_cons {before : List Char} {c d : Char} {r : List Char}
    (member : d ∈ lowerAfter before (c :: r)) :
    (Lowered d ∧ (isBlank c = false → isBlank d = false)) ∨ d ∈ lowerAfter (c :: before) r := by
  have final : ∀ d ∈ ['ς', 'σ'], Lowered d ∧ isBlank d = false :=
    List.all_iff_forall_prop.mp (by decide)
  rw [lowerAfter] at member
  rcases List.mem_append.mp member with here | later
  · left
    split at here
    · split at here
      · have low := final d (by simpa using .inl (List.mem_singleton.mp here))
        exact ⟨low.1, fun _ => low.2⟩
      · have low := final d (by simpa using .inr (List.mem_singleton.mp here))
        exact ⟨low.1, fun _ => low.2⟩
    · next other => exact lowered_of_mem_lowerOf other here
  · exact .inr later

theorem lowered_of_mem_lowerAfter {s : List Char} : ∀ {before : List Char} {d : Char},
    d ∈ lowerAfter before s → Lowered d := by
  induction s with
  | nil =>
      intro before d member
      cases member
  | cons c r ih =>
      intro before d member
      rcases mem_lowerAfter_cons member with here | later
      · exact here.1
      · exact ih later

theorem lowerAfter_ne_nil (before : List Char) (c : Char) (r : List Char) :
    lowerAfter before (c :: r) ≠ [] := by
  have some : lowerOf c ≠ [] := by
    rw [lowerOf]
    split
    · simp
    · split <;> simp
  rw [lowerAfter, ne_eq, List.append_eq_nil_iff]
  rintro ⟨none, -⟩
  split at none
  · split at none <;> cases none
  · exact some none

theorem getLast?_lowerAfter {s : List Char} : ∀ {before : List Char},
    (∀ c ∈ s.getLast?, isBlank c = false) → ∀ d ∈ (lowerAfter before s).getLast?, isBlank d = false := by
  induction s with
  | nil =>
      intro before _ d member
      cases member
  | cons c r ih =>
      intro before ends d member
      cases r with
      | nil =>
          rcases mem_lowerAfter_cons (List.mem_of_mem_getLast? member) with here | none
          · exact here.2 (ends c rfl)
          · cases none
      | cons c' r =>
          rw [lowerAfter, List.getLast?_append_of_ne_nil _ (lowerAfter_ne_nil _ c' r)] at member
          refine ih (fun e last => ends e ?_) d member
          rwa [List.getLast?_cons_cons]

end FileQuery.Text

/-! ## Extensions -/

namespace FileQuery

open Text (Lowered isBlank)

theorem normalizeExtension_starts (s : List Char) :
    normalizeExtension s = [] ∨ (normalizeExtension s).head? = some '.' := by
  rw [normalizeExtension]
  cases Text.lower (Text.trim s) with
  | nil => exact .inl rfl
  | cons c r =>
      dsimp only
      split
      · next dot => exact .inr (congrArg some dot)
      · exact .inr rfl

theorem normalizeExtension_dotted {r : List Char} (lowered : ∀ c ∈ r, Lowered c)
    (ends : ∀ c ∈ r.getLast?, isBlank c = false) : normalizeExtension ('.' :: r) = '.' :: r := by
  have trimmed : Text.trim ('.' :: r) = '.' :: r := by
    rw [Text.trim_eq_self_iff]
    constructor
    · rintro c ⟨⟩
      decide
    · intro c last
      rw [List.getLast?_cons] at last
      cases found : r.getLast? with
      | none =>
          rw [found] at last
          cases last
          decide
      | some d =>
          rw [found] at last
          cases last
          exact ends d found
  have low : Text.lower ('.' :: r) = '.' :: r := by
    refine Text.lowerAfter_eq_self (fun c member => ?_) []
    rcases List.mem_cons.mp member with rfl | member
    · decide
    · exact lowered c member
  rw [normalizeExtension, trimmed, low]
  rfl

theorem normalizeExtension_normalizeExtension (s : List Char) :
    normalizeExtension (normalizeExtension s) = normalizeExtension s := by
  have ends : ∀ c ∈ (Text.lower (Text.trim s)).getLast?, isBlank c = false := by
    refine Text.getLast?_lowerAfter fun c last => ?_
    exact (Text.trim_eq_self_iff.mp (Text.trim_trim s)).2 c last
  have lowered : ∀ c ∈ Text.lower (Text.trim s), Lowered c := fun _ =>
    Text.lowered_of_mem_lowerAfter
  rw [normalizeExtension.eq_def s]
  cases low : Text.lower (Text.trim s) with
  | nil => rfl
  | cons c r =>
      rw [low] at ends lowered
      dsimp only
      split
      · next dot =>
          subst dot
          refine normalizeExtension_dotted (fun d member => lowered d (by simp [member])) fun d last => ?_
          exact ends d (by rw [List.getLast?_cons, Option.mem_def.mp last]; rfl)
      · exact normalizeExtension_dotted lowered ends

end FileQuery
