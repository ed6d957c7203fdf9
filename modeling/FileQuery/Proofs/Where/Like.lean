import FileQuery.Proofs.Text.Case
import FileQuery.Where.Predicate
import Mathlib.Data.List.Forall2

/-! # What a LIKE pattern matches

A pattern matches a text exactly when the text can be cut into consecutive pieces, one for each
character of the pattern (`matchesLike_iff_pieces`). The marks for the ends of a text are those for the
ends of its rest and one more (`ends_cons`), so each character of a pattern asks for one piece at the
front of the text (`matchesLike_run`, `matchesLike_single`). -/
set_option autoImplicit false
namespace FileQuery.Where

/-- The pieces of a text that may stand for a character of a pattern. -/
inductive Fits : Char → List Char → Prop
  | run (piece : List Char) : Fits '%' piece
  | one (c : Char) : Fits '_' [c]
  | exact {k c : Char} (noRun : k ≠ '%') (noOne : k ≠ '_') (similar : Text.Alike k c) : Fits k [c]

namespace Wildcard

/-- The marks for the ends of a text go on with those for the ends of its rest. -/
theorem ends_cons (k : Nat) (ks : List Nat) (ws : List Wildcard) :
    ∃ here, ends (k :: ks) ws = here :: ends ks ws := by
  induction ws with
  | nil => exact ⟨false, rfl⟩
  | cons w ws ih =>
      obtain ⟨here, rest⟩ := ih
      rw [ends, rest]
      exact ⟨_, rfl⟩

/-- Whether a list of wildcards matches a whole text. -/
def Matches (ws : List Wildcard) (keys : List Nat) : Prop := (ends keys ws).headD false = true

variable {ws : List Wildcard} {k : Nat} {ks : List Nat}

theorem matches_nil : Matches [] ks ↔ ks = [] := by
  cases ks <;> simp [Matches, ends]

theorem matches_run_nil : Matches (run :: ws) [] ↔ Matches ws [] := by
  simp [Matches, ends, extend]

theorem matches_run_cons :
    Matches (run :: ws) (k :: ks) ↔ Matches ws (k :: ks) ∨ Matches (run :: ws) ks := by
  obtain ⟨here, rest⟩ := ends_cons k ks ws
  simp [Matches, ends, rest, extend]

theorem matches_run : Matches (run :: ws) ks ↔ ∃ a b, ks = a ++ b ∧ Matches ws b := by
  induction ks with
  | nil =>
      rw [matches_run_nil]
      constructor
      · exact fun rest => ⟨[], [], rfl, rest⟩
      · rintro ⟨a, b, cut, rest⟩
        obtain ⟨rfl, rfl⟩ := List.append_eq_nil_iff.mp cut.symm
        exact rest
  | cons k ks ih =>
      rw [matches_run_cons, ih]
      constructor
      · rintro (rest | ⟨a, b, rfl, rest⟩)
        · exact ⟨[], k :: ks, rfl, rest⟩
        · exact ⟨k :: a, b, rfl, rest⟩
      · rintro ⟨a, b, cut, rest⟩
        rcases List.cons_eq_append_iff.mp cut with ⟨rfl, rfl⟩ | ⟨a, rfl, rfl⟩
        · exact .inl rest
        · exact .inr ⟨a, b, rfl, rest⟩

theorem matches_one : Matches (one :: ws) ks ↔ ∃ k r, ks = k :: r ∧ Matches ws r := by
  cases ks with
  | nil => simp [Matches, ends, extend]
  | cons k ks =>
      obtain ⟨here, rest⟩ := ends_cons k ks ws
      simp [Matches, ends, rest, extend]

theorem matches_exact {key : Nat} :
    Matches (exact key :: ws) ks ↔ ∃ r, ks = key :: r ∧ Matches ws r := by
  cases ks with
  | nil => simp [Matches, ends, extend]
  | cons k ks =>
      obtain ⟨here, rest⟩ := ends_cons k ks ws
      simp only [Matches, ends, rest, extend]
      constructor
      · intro marked
        obtain ⟨same, later⟩ : key = k ∧ (ends ks ws).headD false = true := by simpa using marked
        exact ⟨ks, by rw [same], later⟩
      · rintro ⟨r, cut, later⟩
        obtain ⟨rfl, rfl⟩ := List.cons.inj cut
        simpa using later

end Wildcard

open Wildcard (ofChar Matches)

variable {p t : List Char}

theorem matchesLike_iff_matches :
    matchesLike p t = true ↔ Matches (p.map ofChar) (t.map Text.fold) := .rfl

theorem matchesLike_nil : matchesLike [] t = true ↔ t = [] := by
  rw [matchesLike_iff_matches, List.map_nil, Wildcard.matches_nil, List.map_eq_nil_iff]

theorem matchesLike_run :
    matchesLike ('%' :: p) t = true ↔ ∃ a b, t = a ++ b ∧ matchesLike p b = true := by
  simp only [matchesLike_iff_matches]
  rw [List.map_cons]
  change Matches (.run :: _) _ ↔ _
  rw [Wildcard.matches_run]
  constructor
  · rintro ⟨a, b, cut, rest⟩
    obtain ⟨a, b, rfl, rfl, rfl⟩ := List.map_eq_append_iff.mp cut
    exact ⟨a, b, rfl, rest⟩
  · rintro ⟨a, b, rfl, rest⟩
    exact ⟨_, _, List.map_append, rest⟩

theorem matchesLike_single {c : Char} (noRun : c ≠ '%') :
    matchesLike (c :: p) t = true ↔
      ∃ d r, t = d :: r ∧ Fits c [d] ∧ matchesLike p r = true := by
  simp only [matchesLike_iff_matches]
  rw [List.map_cons, ofChar, if_neg noRun]
  by_cases underscore : c = '_'
  · subst underscore
    rw [if_pos rfl, Wildcard.matches_one]
    constructor
    · rintro ⟨k, ks, cut, rest⟩
      obtain ⟨d, r, rfl, rfl, rfl⟩ := List.map_eq_cons_iff.mp cut
      exact ⟨d, r, rfl, .one d, rest⟩
    · rintro ⟨d, r, rfl, _, rest⟩
      exact ⟨_, _, List.map_cons, rest⟩
  · rw [if_neg underscore, Wildcard.matches_exact]
    constructor
    · rintro ⟨ks, cut, rest⟩
      obtain ⟨d, r, rfl, same, rfl⟩ := List.map_eq_cons_iff.mp cut
      exact ⟨d, r, rfl, .exact noRun underscore (Text.fold_eq_iff.mp same.symm), rest⟩
    · rintro ⟨d, r, rfl, fits, rest⟩
      cases fits with
      | run => exact absurd rfl noRun
      | one => exact absurd rfl underscore
      | exact _ _ similar =>
          exact ⟨_, by rw [List.map_cons, Text.fold_eq_iff.mpr similar], rest⟩

/-- Whatever the character of a pattern is, it takes one piece off the front that fits it. -/
theorem matchesLike_cons {c : Char} :
    matchesLike (c :: p) t = true ↔
      ∃ piece r, t = piece ++ r ∧ Fits c piece ∧ matchesLike p r = true := by
  by_cases percent : c = '%'
  · subst percent
    rw [matchesLike_run]
    constructor
    · rintro ⟨a, b, rfl, rest⟩
      exact ⟨a, b, rfl, .run a, rest⟩
    · rintro ⟨a, b, rfl, _, rest⟩
      exact ⟨a, b, rfl, rest⟩
  · rw [matchesLike_single percent]
    constructor
    · rintro ⟨d, r, rfl, fits, rest⟩
      exact ⟨[d], r, rfl, fits, rest⟩
    · rintro ⟨piece, r, rfl, fits, rest⟩
      cases fits with
      | run => exact absurd rfl percent
      | one d => exact ⟨d, r, rfl, .one d, rest⟩
      | exact noRun noOne similar => exact ⟨_, r, rfl, .exact noRun noOne similar, rest⟩

/-- Texts are matched piece by piece, whichever way the runs share what lies between them. -/
theorem matchesLike_iff_pieces (p : List Char) : ∀ t : List Char,
    matchesLike p t = true ↔ ∃ pieces, pieces.flatten = t ∧ List.Forall₂ Fits p pieces := by
  induction p with
  | nil =>
      intro t
      rw [matchesLike_nil]
      constructor
      · rintro rfl
        exact ⟨[], rfl, .nil⟩
      · rintro ⟨pieces, rfl, fits⟩
        cases fits
        rfl
  | cons c p ih =>
      intro t
      rw [matchesLike_cons]
      constructor
      · rintro ⟨piece, r, rfl, fits, rest⟩
        obtain ⟨pieces, rfl, later⟩ := (ih r).mp rest
        exact ⟨piece :: pieces, rfl, .cons fits later⟩
      · rintro ⟨pieces, rfl, fits⟩
        cases fits with
        | cons first later => exact ⟨_, _, rfl, first, (ih _).mpr ⟨_, rfl, later⟩⟩

theorem matchesLike_append (p q : List Char) : ∀ t : List Char,
    matchesLike (p ++ q) t = true ↔
      ∃ a b, t = a ++ b ∧ matchesLike p a = true ∧ matchesLike q b = true := by
  induction p with
  | nil =>
      intro t
      simp [matchesLike_nil]
  | cons c p ih =>
      intro t
      rw [List.cons_append, matchesLike_cons]
      constructor
      · rintro ⟨piece, r, rfl, fits, rest⟩
        obtain ⟨a, b, rfl, first, last⟩ := (ih r).mp rest
        refine ⟨piece ++ a, b, (List.append_assoc _ _ _).symm, ?_, last⟩
        exact matchesLike_cons.mpr ⟨piece, a, rfl, fits, first⟩
      · rintro ⟨a, b, rfl, first, last⟩
        obtain ⟨piece, r, rfl, fits, rest⟩ := matchesLike_cons.mp first
        exact ⟨piece, r ++ b, List.append_assoc _ _ _, fits, (ih _).mpr ⟨r, b, rfl, rest, last⟩⟩

theorem matchesLike_runs (n : Nat) : ∀ t : List Char,
    matchesLike (List.replicate (n + 1) '%') t = true := by
  induction n with
  | zero => exact fun t => matchesLike_run.mpr ⟨t, [], (List.append_nil t).symm, matchesLike_nil.mpr rfl⟩
  | succ n ih => exact fun t => matchesLike_run.mpr ⟨[], t, rfl, ih t⟩

/-- LIKE: a text matches when it can be cut into consecutive pieces that fit the characters of the
pattern one by one; so patterns and texts may be cut alike, and percent signs in a row are as one. -/
theorem like_matches_pieces :
    Equivalence Text.Alike ∧
    (∀ p t : List Char, matchesLike p t = true ↔
      ∃ pieces, pieces.flatten = t ∧ List.Forall₂ Fits p pieces) ∧
    (∀ p q t : List Char, matchesLike (p ++ q) t = true ↔
      ∃ a b, t = a ++ b ∧ matchesLike p a = true ∧ matchesLike q b = true) ∧
    ∀ (p q t : List Char) (n : Nat),
      matchesLike (p ++ (List.replicate (n + 1) '%' ++ q)) t = matchesLike (p ++ '%' :: q) t := by
  refine ⟨Text.alike_equivalence, matchesLike_iff_pieces, matchesLike_append, fun p q t n => ?_⟩
  rw [Bool.eq_iff_iff, matchesLike_append p, matchesLike_append p]
  simp only [matchesLike_append (List.replicate (n + 1) '%'), matchesLike_runs, matchesLike_run,
    true_and]

example : matchesLike "%.B_k\\".toList "x.y\n.bAk\\".toList = true := by decide

end FileQuery.Where
