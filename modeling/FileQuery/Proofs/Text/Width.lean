import FileQuery.Text.Width
import Mathlib.Data.List.Basic

/-! How wide texts are that stand one behind the other. A joiner hides the character behind it, so a
text is as wide as its parts together only where no part but the last ends in a joiner. -/
set_option autoImplicit false
namespace FileQuery.Text

/-- The character that hides the one behind it. -/
def joiner : Char := '\u200D'

/-- The character that widens the one before it. -/
def widener : Char := '\uFE0F'

/-- What a selector adds to the width of the character it follows. -/
def widening : Option Char → Nat
  | some d => if inRanges widenedRanges d.toNat then 1 else 0
  | none => 0

section Cells
variable {c : Char} {last : Option Char} {a b r : List Char}

theorem cellsAfter_nil (last : Option Char) : cellsAfter last [] = 0 := by
  rw [cellsAfter]

theorem cellsAfter_joiner_last (last : Option Char) : cellsAfter last [joiner] = 0 := by
  rw [cellsAfter.eq_def]
  rfl

theorem cellsAfter_joiner (last : Option Char) (c : Char) (r : List Char) :
    cellsAfter last (joiner :: c :: r) = cellsAfter last r := by
  rw [cellsAfter.eq_def]
  rfl

theorem cellsAfter_widener (last : Option Char) (r : List Char) :
    cellsAfter last (widener :: r) = widening last + cellsAfter none r := by
  rw [cellsAfter.eq_def]
  cases last with
  | none => exact (Nat.zero_add _).symm
  | some d => rfl

theorem cellsAfter_other (joins : c ≠ joiner) (widens : c ≠ widener) (last : Option Char)
    (r : List Char) : cellsAfter last (c :: r) =
      cellWidth c + cellsAfter (if cellWidth c = 0 then last else some c) r := by
  rw [cellsAfter.eq_def]
  exact (if_neg joins).trans (if_neg widens)

theorem cells_induction {motive : Option Char → List Char → Prop} (nil : ∀ last, motive last [])
    (joined : ∀ last, motive last [joiner])
    (hidden : ∀ last c r, motive last r → motive last (joiner :: c :: r))
    (widened : ∀ last r, motive none r → motive last (widener :: r))
    (other : ∀ last c r, c ≠ joiner → c ≠ widener →
      motive (if cellWidth c = 0 then last else some c) r → motive last (c :: r))
    (last : Option Char) (s : List Char) : motive last s := by
  fun_induction cellsAfter last s with
  | case1 last => exact nil last
  | case2 last => exact joined last
  | case3 last c r ih => exact hidden last c r ih
  | case4 r _ d ih => exact widened _ r ih
  | case5 r _ ih => exact widened _ r ih
  | case6 last c r joins widens width ih => exact other last c r joins widens ih

theorem cellsAfter_none_le (last : Option Char) (s : List Char) :
    cellsAfter none s ≤ cellsAfter last s := by
  induction last, s using cells_induction with
  | nil => exact Nat.le_refl _
  | joined last => exact Nat.le_of_eq (by rw [cellsAfter_joiner_last, cellsAfter_joiner_last])
  | hidden last c r ih => rwa [cellsAfter_joiner, cellsAfter_joiner]
  | widened last r ih =>
      rw [cellsAfter_widener, cellsAfter_widener, widening, Nat.zero_add]
      exact Nat.le_add_left _ _
  | other last c r joins widens ih =>
      rw [cellsAfter_other joins widens, cellsAfter_other joins widens]
      by_cases zero : cellWidth c = 0
      · rw [if_pos zero] at ih ⊢
        rw [if_pos zero]
        exact Nat.add_le_add_left ih _
      · exact Nat.le_of_eq (by rw [if_neg zero, if_neg zero])

theorem cellsAfter_le_append (last : Option Char) (a b : List Char) :
    cellsAfter last a ≤ cellsAfter last (a ++ b) := by
  induction last, a using cells_induction with
  | nil last =>
      rw [cellsAfter_nil]
      exact Nat.zero_le _
  | joined last =>
      rw [cellsAfter_joiner_last]
      exact Nat.zero_le _
  | hidden last c r ih =>
      rw [List.cons_append, List.cons_append, cellsAfter_joiner, cellsAfter_joiner]
      exact ih
  | widened last r ih =>
      rw [List.cons_append, cellsAfter_widener, cellsAfter_widener]
      exact Nat.add_le_add_left ih _
  | other last c r joins widens ih =>
      rw [List.cons_append, cellsAfter_other joins widens, cellsAfter_other joins widens]
      exact Nat.add_le_add_left ih _

theorem cells_le_append (a b : List Char) : cells a ≤ cells (a ++ b) :=
  cellsAfter_le_append none a b

/-- Texts one behind the other are as wide as both, unless the first ends in a joiner. -/
theorem cells_add_le (open' : a.getLast? ≠ some joiner) (b : List Char) :
    cells a + cells b ≤ cells (a ++ b) := by
  suffices after : ∀ last, cellsAfter last a + cells b ≤ cellsAfter last (a ++ b) from after none
  intro last
  induction last, a using cells_induction with
  | nil last =>
      rw [cellsAfter_nil, Nat.zero_add, List.nil_append]
      exact cellsAfter_none_le last b
  | joined => exact absurd rfl open'
  | hidden last c r ih =>
      rw [List.cons_append, List.cons_append, cellsAfter_joiner, cellsAfter_joiner]
      refine ih fun ends => open' ?_
      rw [List.getLast?_cons_cons, List.getLast?_cons, ends]
      rfl
  | widened last r ih =>
      rw [List.cons_append, cellsAfter_widener, cellsAfter_widener, Nat.add_assoc]
      refine Nat.add_le_add_left (ih fun ends => open' ?_) _
      rw [List.getLast?_cons, ends]
      rfl
  | other last c r joins widens ih =>
      rw [List.cons_append, cellsAfter_other joins widens, cellsAfter_other joins widens,
        Nat.add_assoc]
      refine Nat.add_le_add_left (ih fun ends => open' ?_) _
      rw [List.getLast?_cons, ends]
      rfl

end Cells

/-! Narrow texts: one cell a character. -/

/-- A character that always takes one cell of its own, whatever it follows. -/
def Narrow (c : Char) : Prop := cellWidth c = 1 ∧ c ≠ joiner ∧ c ≠ widener

instance (c : Char) : Decidable (Narrow c) :=
  inferInstanceAs (Decidable (cellWidth c = 1 ∧ c ≠ joiner ∧ c ≠ widener))

theorem narrow_of_ascii {c : Char} (low : 0x20 ≤ c.toNat) (high : c.toNat < 0x7F) : Narrow c := by
  refine ⟨?_, ?_, ?_⟩
  · have control : ¬ (c.toNat < 0x20 ∨ 0x7F ≤ c.toNat ∧ c.toNat < 0xA0) := by omega
    have early : c.toNat < 0x300 := by omega
    simp only [cellWidth]
    rw [if_neg (by simpa using control), if_pos early]
  · rintro rfl
    exact absurd high (by decide)
  · rintro rfl
    exact absurd high (by decide)

theorem cellsAfter_narrow {s : List Char} (narrow : ∀ c ∈ s, Narrow c) (last : Option Char) :
    cellsAfter last s = s.length := by
  induction s generalizing last with
  | nil => exact cellsAfter_nil last
  | cons c r ih =>
      obtain ⟨⟨width, joins, widens⟩, behind⟩ := List.forall_mem_cons.mp narrow
      rw [cellsAfter_other joins widens, width, ih behind, List.length_cons, Nat.add_comm]

theorem cells_narrow {s : List Char} (narrow : ∀ c ∈ s, Narrow c) : cells s = s.length :=
  cellsAfter_narrow narrow none

theorem cells_add_narrow_le (a : List Char) {s : List Char} (narrow : ∀ c ∈ s, Narrow c) :
    cells a + s.length ≤ cells (a ++ s) + 1 := by
  suffices after : ∀ last, cellsAfter last a + s.length ≤ cellsAfter last (a ++ s) + 1 from
    after none
  intro last
  induction last, a using cells_induction with
  | nil last =>
      rw [cellsAfter_nil, List.nil_append, cellsAfter_narrow narrow]
      omega
  | joined last =>
      cases s with
      | nil =>
          rw [cellsAfter_joiner_last]
          exact Nat.zero_le _
      | cons c r =>
          rw [cellsAfter_joiner_last, List.singleton_append, cellsAfter_joiner,
            cellsAfter_narrow (List.forall_mem_cons.mp narrow).2, List.length_cons]
          omega
  | hidden last c r ih =>
      rw [List.cons_append, List.cons_append, cellsAfter_joiner, cellsAfter_joiner]
      exact ih
  | widened last r ih =>
      rw [List.cons_append, cellsAfter_widener, cellsAfter_widener]
      omega
  | other last c r joins widens ih =>
      rw [List.cons_append, cellsAfter_other joins widens, cellsAfter_other joins widens]
      omega

end FileQuery.Text
