import FileQuery.Statement.Token
import FileQuery.Text.Case
import Mathlib.Tactic.ByContra

/-! # Words in any case

Upper case keeps every character that no bare word has (`upperOf_of_not_wordChar`), so whatever is
typed for a keyword is a bare word (`Spells.bare`). -/
set_option autoImplicit false
namespace FileQuery.Text

def blankCodes : List Nat :=
  [9, 10, 11, 12, 13, 28, 29, 30, 31, 32, 0x85, 0xA0, 0x1680, 0x2000, 0x2001, 0x2002, 0x2003, 0x2004,
   0x2005, 0x2006, 0x2007, 0x2008, 0x2009, 0x200A, 0x2028, 0x2029, 0x202F, 0x205F, 0x3000]

theorem toNat_mem_blankCodes {c : Char} (blank : isBlank c = true) : c.toNat ∈ blankCodes := by
  simp only [isBlank, Bool.or_eq_true, Bool.and_eq_true, decide_eq_true_eq, beq_iff_eq] at blank
  simp only [blankCodes, List.mem_cons, List.not_mem_nil, or_false]
  omega

theorem upperOf_blankCode : ∀ n ∈ blankCodes, upperOf (Char.ofNat n) = [Char.ofNat n] := by
  decide

theorem upperOf_of_isBlank {c : Char} (blank : isBlank c = true) : upperOf c = [c] := by
  have h := upperOf_blankCode c.toNat (toNat_mem_blankCodes blank)
  rwa [Char.ofNat_toNat] at h

theorem upperOf_of_not_wordChar {c : Char} (other : Token.isWordChar c = false) :
    upperOf c = [c] := by
  by_cases blank : isBlank c = true
  · exact upperOf_of_isBlank blank
  · simp only [Token.isWordChar, Token.isQuote, Bool.and_eq_false_iff, Bool.not_eq_false', blank,
      Bool.or_eq_true, beq_iff_eq, bne_eq_false_iff_eq] at other
    rcases other with ((h | h | h) | h) | h
    · exact absurd h (by simp)
    all_goals
      subst h
      decide

end FileQuery.Text

namespace FileQuery.Token

theorem isWordChar_iff {c : Char} :
    isWordChar c = true ↔ Text.isBlank c = false ∧ isQuote c = false ∧ c ≠ '(' ∧ c ≠ ')' := by
  simp [isWordChar, and_assoc]

theorem isBlank_of_isQuote {c : Char} (quote : isQuote c = true) : Text.isBlank c = false := by
  simp only [isQuote, Bool.or_eq_true, beq_iff_eq] at quote
  rcases quote with rfl | rfl <;> decide

theorem isWordChar_of_isBlank {c : Char} (blank : Text.isBlank c = true) :
    isWordChar c = false := by
  simp [isWordChar, blank]

structure Bare (w : List Char) : Prop where
  nonempty : w ≠ []
  plain : ∀ c ∈ w, isWordChar c = true

instance (w : List Char) : Decidable (Bare w) :=
  decidable_of_iff (w ≠ [] ∧ w.all isWordChar = true)
    ⟨fun h => ⟨h.1, List.all_eq_true.mp h.2⟩, fun h => ⟨h.nonempty, List.all_eq_true.mpr h.plain⟩⟩

def Spells (keyword : String) (w : List Char) : Prop := String.ofList (Text.upper w) = keyword

instance (keyword : String) (w : List Char) : Decidable (Spells keyword w) :=
  inferInstanceAs (Decidable (_ = _))

theorem Spells.bare {keyword : String} {w : List Char} (spells : Spells keyword w)
    (bare : Bare keyword.toList) : Bare w := by
  have upper : Text.upper w = keyword.toList := by
    rw [← spells, String.toList_ofList]
  rw [← upper] at bare
  constructor
  · rintro rfl
    exact bare.nonempty rfl
  · intro c member
    by_contra other
    have same := Text.upperOf_of_not_wordChar (Bool.eq_false_iff.mpr other)
    refine other (bare.plain c ?_)
    exact List.mem_flatMap.mpr ⟨c, member, by rw [same]; exact List.mem_singleton.mpr rfl⟩

end FileQuery.Token

/-! # Characters alike in any case

Comparing representatives decides whether two characters are alike (`fold_eq_iff`): no code point stands
in two groups, so the first of a group stands for all of it and for nothing else. -/

namespace FileQuery.Text

/-- The one-to-one lower cases are the same, or stand in one group. -/
def Alike (a b : Char) : Prop :=
  simpleLower a = simpleLower b ∨ ∃ g ∈ foldGroups, simpleLower a ∈ g ∧ simpleLower b ∈ g

theorem eq_of_mem_foldGroups :
    ∀ g ∈ foldGroups, ∀ g' ∈ foldGroups, ∀ n ∈ g, n ∈ g' → g = g' := by
  decide

theorem fold_of_mem {c : Char} {g : List Nat} (listed : g ∈ foldGroups) (member : simpleLower c ∈ g) :
    fold c = g.headD (simpleLower c) := by
  rw [fold]
  cases found : foldGroups.find? fun g => g.contains (simpleLower c) with
  | none =>
      rw [List.find?_eq_none] at found
      exact absurd (by simpa using member) (found g listed)
  | some g' =>
      have own : simpleLower c ∈ g' := by simpa using List.find?_some found
      rw [eq_of_mem_foldGroups g' (List.mem_of_find?_eq_some found) g listed _ own member]

theorem fold_of_forall_not_mem {c : Char} (alone : ∀ g ∈ foldGroups, simpleLower c ∉ g) :
    fold c = simpleLower c := by
  have none : (foldGroups.find? fun g => g.contains (simpleLower c)) = Option.none := by
    rw [List.find?_eq_none]
    intro g listed
    simpa using alone g listed
  rw [fold]
  simp only [none]

theorem fold_mem {c : Char} {g : List Nat} (listed : g ∈ foldGroups) (member : simpleLower c ∈ g) :
    fold c ∈ g := by
  rw [fold_of_mem listed member]
  cases g with
  | nil => cases member
  | cons n rest => exact List.mem_cons_self

theorem alike_of_fold_eq {a b : Char} (same : fold a = fold b) : Alike a b := by
  by_cases left : ∃ g ∈ foldGroups, simpleLower a ∈ g
  · obtain ⟨g, listed, member⟩ := left
    refine .inr ⟨g, listed, member, ?_⟩
    have shared := fold_mem listed member
    rw [same] at shared
    by_cases right : ∃ g' ∈ foldGroups, simpleLower b ∈ g'
    · obtain ⟨g', listed', member'⟩ := right
      rwa [eq_of_mem_foldGroups g listed g' listed' _ shared (fold_mem listed' member')]
    · rwa [fold_of_forall_not_mem (by simpa using right)] at shared
  · have alone := fold_of_forall_not_mem (by simpa using left)
    by_cases right : ∃ g' ∈ foldGroups, simpleLower b ∈ g'
    · obtain ⟨g', listed', member'⟩ := right
      refine absurd ⟨g', listed', ?_⟩ left
      rw [← alone, same]
      exact fold_mem listed' member'
    · refine .inl ?_
      rw [← alone, same, fold_of_forall_not_mem (by simpa using right)]

theorem fold_eq_of_alike {a b : Char} (similar : Alike a b) : fold a = fold b := by
  rcases similar with same | ⟨g, listed, left, right⟩
  · rw [fold, fold, same]
  · rw [fold_of_mem listed left, fold_of_mem listed right]
    cases g with
    | nil => cases left
    | cons n rest => rfl

theorem fold_eq_iff {a b : Char} : fold a = fold b ↔ Alike a b :=
  ⟨alike_of_fold_eq, fold_eq_of_alike⟩

theorem alike_equivalence : Equivalence Alike where
  refl _ := .inl rfl
  symm := by
    intro a b similar
    rw [← fold_eq_iff] at similar ⊢
    exact similar.symm
  trans := by
    intro a b c first second
    rw [← fold_eq_iff] at first second ⊢
    exact first.trans second

end FileQuery.Text
