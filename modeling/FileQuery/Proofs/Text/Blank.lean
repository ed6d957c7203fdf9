import FileQuery.Text.Blank
import Mathlib.Data.List.DropRight

/-! # Trimming

Blanks at either end of a text do not change what it is trimmed to (`trim_pad`), and a text is
trimmed already exactly when it neither begins nor ends with a blank (`trim_eq_self_iff`). -/
set_option autoImplicit false
namespace FileQuery.Text

def Blanks (s : List Char) : Prop := ∀ c ∈ s, isBlank c = true

instance (s : List Char) : Decidable (Blanks s) :=
  decidable_of_iff (s.all isBlank = true) List.all_eq_true

theorem blanks_nil : Blanks [] := by
  intro c member
  simp at member

theorem blanks_cons {c : Char} {s : List Char} :
    Blanks (c :: s) ↔ isBlank c = true ∧ Blanks s := by
  simp [Blanks]

structure Gap (s : List Char) : Prop where
  nonempty : s ≠ []
  blanks : Blanks s

instance (s : List Char) : Decidable (Gap s) :=
  decidable_of_iff (s ≠ [] ∧ Blanks s) ⟨fun h => ⟨h.1, h.2⟩, fun h => ⟨h.nonempty, h.blanks⟩⟩

theorem gap_singleton {c : Char} (blank : isBlank c = true) : Gap [c] :=
  ⟨by simp, by simpa [Blanks] using blank⟩

theorem trimStart_pad {l : List Char} (blanks : Blanks l) (s : List Char) :
    trimStart (l ++ s) = trimStart s :=
  List.dropWhile_append_of_pos blanks

theorem trimEnd_pad {r : List Char} (blanks : Blanks r) (s : List Char) :
    trimEnd (s ++ r) = trimEnd s := by
  have reversed : Blanks r.reverse := fun c member => blanks c (List.mem_reverse.mp member)
  simp only [trimEnd, List.reverse_append]
  rw [List.dropWhile_append_of_pos reversed]

theorem trimStart_append {s : List Char} (kept : trimStart s ≠ []) (r : List Char) :
    trimStart (s ++ r) = trimStart s ++ r := by
  simp only [trimStart] at kept ⊢
  rw [List.dropWhile_append, if_neg (by simpa using kept)]

theorem trimStart_eq_nil {s : List Char} (empty : trimStart s = []) : Blanks s :=
  List.dropWhile_eq_nil_iff.mp empty

theorem trim_pad {l r : List Char} (left : Blanks l) (right : Blanks r) (s : List Char) :
    trim (l ++ s ++ r) = trim s := by
  rw [trim, List.append_assoc, trimStart_pad left]
  by_cases kept : trimStart s = []
  · have all : Blanks (s ++ r) := by
      intro c member
      rcases List.mem_append.mp member with h | h
      · exact trimStart_eq_nil kept c h
      · exact right c h
    have none : trimStart (s ++ r) = [] := List.dropWhile_eq_nil_iff.mpr all
    rw [trim, none, kept]
  · rw [trimStart_append kept, trimEnd_pad right, trim]

theorem trim_cons_blank {c : Char} (blank : isBlank c = true) (s : List Char) :
    trim (c :: s) = trim s := by
  have h := trim_pad (l := [c]) (r := []) (by simpa [Blanks] using blank) blanks_nil s
  simpa using h

theorem trimStart_eq_self_iff {s : List Char} :
    trimStart s = s ↔ ∀ c ∈ s.head?, isBlank c = false := by
  cases s with
  | nil => simp [trimStart]
  | cons c r =>
      cases blank : isBlank c with
      | false => simp [trimStart, blank]
      | true =>
          have shorter := length_dropWhile_le isBlank r
          simp only [trimStart, List.dropWhile_cons, blank, if_true, List.head?_cons,
            Option.mem_def, Option.some.injEq, forall_eq', Bool.true_eq_false, iff_false]
          intro same
          have := congrArg List.length same
          simp only [List.length_cons] at this
          omega

theorem trimEnd_eq_self_iff {s : List Char} :
    trimEnd s = s ↔ ∀ c ∈ s.getLast?, isBlank c = false := by
  have h := trimStart_eq_self_iff (s := s.reverse)
  rw [List.head?_reverse] at h
  rw [← h, trimEnd, trimStart]
  constructor
  · intro same
    exact List.reverse_injective (by rw [same, List.reverse_reverse])
  · intro same
    rw [same, List.reverse_reverse]

theorem trimEnd_length_le (s : List Char) : (trimEnd s).length ≤ s.length := by
  have h := length_dropWhile_le isBlank s.reverse
  simpa [trimEnd] using h

theorem trim_eq_self_iff {s : List Char} :
    trim s = s ↔ (∀ c ∈ s.head?, isBlank c = false) ∧ (∀ c ∈ s.getLast?, isBlank c = false) := by
  rw [← trimStart_eq_self_iff, ← trimEnd_eq_self_iff]
  constructor
  · intro same
    have start : trimStart s = s := by
      have suffix : trimStart s <:+ s := List.dropWhile_suffix isBlank
      have short := trimEnd_length_le (trimStart s)
      rw [← trim, same] at short
      exact suffix.eq_of_length (Nat.le_antisymm suffix.length_le short)
    exact ⟨start, by rwa [trim, start] at same⟩
  · rintro ⟨start, stop⟩
    rw [trim, start, stop]

theorem mem_getLast_append {r : List Char} {c : Char} (member : c ∈ r.getLast?) (a : List Char) :
    c ∈ (a ++ r).getLast? := by
  rw [List.getLast?_append, Option.mem_def.mp member]
  rfl

theorem trim_between {a b : List Char} (left : trim a = a) (right : trim b = b) (first : a ≠ [])
    (last : b ≠ []) (m : List Char) : trim (a ++ (m ++ b)) = a ++ (m ++ b) := by
  rw [trim_eq_self_iff] at left right ⊢
  constructor
  · rw [List.head?_append_of_ne_nil _ first]
    exact left.1
  · rw [← List.append_assoc, List.getLast?_append_of_ne_nil _ last]
    exact right.2

theorem trim_singleton {c : Char} (other : isBlank c = false) : trim [c] = [c] := by
  rw [trim_eq_self_iff]
  simp [other]

theorem exists_trimEnd (s : List Char) : ∃ trail, Blanks trail ∧ s = trimEnd s ++ trail := by
  refine ⟨(s.reverse.takeWhile isBlank).reverse, ?_, ?_⟩
  · intro c member
    exact List.mem_takeWhile_imp (List.mem_reverse.mp member)
  · rw [trimEnd, ← List.reverse_append, List.takeWhile_append_dropWhile, List.reverse_reverse]

theorem exists_trim (s : List Char) :
    ∃ lead trail, Blanks lead ∧ Blanks trail ∧ s = lead ++ (trim s ++ trail) := by
  obtain ⟨trail, blanks, same⟩ := exists_trimEnd (trimStart s)
  refine ⟨s.takeWhile isBlank, trail, fun c member => List.mem_takeWhile_imp member, blanks, ?_⟩
  rw [trim, ← same, trimStart, List.takeWhile_append_dropWhile]

theorem trim_trim (s : List Char) : trim (trim s) = trim s := by
  obtain ⟨lead, trail, left, right, same⟩ := exists_trim s
  have padded := trim_pad left right (trim s)
  rw [List.append_assoc, ← same] at padded
  exact padded.symm

end FileQuery.Text
