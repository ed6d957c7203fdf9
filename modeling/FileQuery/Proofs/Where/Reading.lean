import FileQuery.Proofs.Text.Blank
import FileQuery.Proofs.Text.Case
import FileQuery.Where.Scan

/-! # Reading a condition text

Where a reading stands is its open quote and its depth of parentheses. What is read before a blank
outside strings and what is read after it do not depend on each other (`scan_append_gap`), so a bare
word between blanks is a run of its own, outside strings and parentheses (`scan_join`). -/
set_option autoImplicit false
namespace FileQuery.Where

/-- Where a reading of a condition text stands. -/
structure Reading where
  quoting : Quoting := {}
  depth : Nat := 0
  deriving DecidableEq

namespace Reading

def next (s : Reading) (c : Char) : Reading :=
  ⟨s.quoting.next c, if s.quoting.inside then s.depth else depthAfter s.depth c⟩

def after (s : Reading) (text : List Char) : Reading := text.foldl next s

def Outside (s : Reading) : Prop := s.quoting.quote = none

instance (s : Reading) : Decidable s.Outside :=
  inferInstanceAs (Decidable (s.quoting.quote = none))

theorem after_nil (s : Reading) : s.after [] = s := rfl

theorem after_cons (s : Reading) (c : Char) (r : List Char) :
    s.after (c :: r) = (s.next c).after r := rfl

theorem after_append (s : Reading) (a b : List Char) :
    s.after (a ++ b) = (s.after a).after b :=
  List.foldl_append

theorem inside_of_outside {s : Reading} (outside : s.Outside) : s.quoting.inside = false := by
  simp only [Outside] at outside
  simp [Quoting.inside, outside]

theorem outside_of_inside {s : Reading} (inside : s.quoting.inside = false) : s.Outside := by
  simpa [Quoting.inside, Outside] using inside

end Reading

theorem Quoting.next_outside {q : Quoting} (outside : q.quote = none) (c : Char) :
    q.next c = ({} : Quoting).next c := by
  simp [Quoting.next, outside]

/-! ## Characters -/

theorem isBlank_paren : Text.isBlank '(' = false ∧ Text.isBlank ')' = false := by
  decide

theorem depthAfter_of_ne {c : Char} (opening : c ≠ '(') (closing : c ≠ ')') (depth : Nat) :
    depthAfter depth c = depth := by
  simp [depthAfter, opening, closing]

theorem ne_paren_of_isQuote {c : Char} (quote : Quoting.isQuote c = true) :
    c ≠ '(' ∧ c ≠ ')' := by
  constructor
  · rintro rfl
    exact absurd quote (by decide)
  · rintro rfl
    exact absurd quote (by decide)

/-- Whether a character opens no string, and opens and closes no parenthesis. -/
structure Unmarked (c : Char) : Prop where
  quote : Quoting.isQuote c = false
  opening : c ≠ '('
  closing : c ≠ ')'

theorem unmarked_of_isBlank {c : Char} (blank : Text.isBlank c = true) : Unmarked c := by
  refine ⟨?_, ?_, ?_⟩
  · by_contra quote
    rw [Token.isBlank_of_isQuote (Bool.not_eq_false _ ▸ quote)] at blank
    exact absurd blank (by decide)
  · rintro rfl
    exact absurd blank (by decide)
  · rintro rfl
    exact absurd blank (by decide)

theorem unmarked_of_isWordChar {c : Char} (plain : Token.isWordChar c = true) : Unmarked c := by
  obtain ⟨_, quote, opening, closing⟩ := Token.isWordChar_iff.mp plain
  exact ⟨quote, opening, closing⟩

theorem unmarked_joint {before k behind : List Char} (first : Text.Gap before)
    (bare : Token.Bare k) (last : Text.Gap behind) :
    ∀ c ∈ before ++ (k ++ behind), Unmarked c := by
  intro c member
  rw [List.mem_append, List.mem_append] at member
  rcases member with blank | plain | blank
  · exact unmarked_of_isBlank (first.blanks c blank)
  · exact unmarked_of_isWordChar (bare.plain c plain)
  · exact unmarked_of_isBlank (last.blanks c blank)

theorem depthAfter_blank {c : Char} (blank : Text.isBlank c = true) (depth : Nat) :
    depthAfter depth c = depth := by
  have plain := unmarked_of_isBlank blank
  exact depthAfter_of_ne plain.opening plain.closing depth

namespace Reading

theorem next_unmarked {s : Reading} (outside : s.Outside) {c : Char} (plain : Unmarked c) :
    (s.next c).Outside ∧ (s.next c).depth = s.depth := by
  simp only [Outside] at outside
  simp [next, Outside, Quoting.next, Quoting.inside, outside, plain.quote,
    depthAfter_of_ne plain.opening plain.closing]

theorem next_blank {s : Reading} (outside : s.Outside) {c : Char}
    (blank : Text.isBlank c = true) : (s.next c).Outside ∧ (s.next c).depth = s.depth :=
  next_unmarked outside (unmarked_of_isBlank blank)

theorem next_wordChar {s : Reading} (outside : s.Outside) {c : Char}
    (plain : Token.isWordChar c = true) : (s.next c).Outside ∧ (s.next c).depth = s.depth :=
  next_unmarked outside (unmarked_of_isWordChar plain)

theorem after_unmarked {s : Reading} (outside : s.Outside) {a : List Char}
    (plain : ∀ c ∈ a, Unmarked c) : (s.after a).Outside ∧ (s.after a).depth = s.depth := by
  induction a generalizing s with
  | nil => exact ⟨outside, rfl⟩
  | cons c r ih =>
      have step := next_unmarked outside (plain c (by simp))
      have rest := ih step.1 (fun d member => plain d (by simp [member]))
      rw [after_cons]
      exact ⟨rest.1, rest.2.trans step.2⟩

theorem after_blanks {s : Reading} (outside : s.Outside) {gap : List Char}
    (blanks : Text.Blanks gap) : (s.after gap).Outside ∧ (s.after gap).depth = s.depth := by
  apply after_unmarked outside
  intro c member
  exact unmarked_of_isBlank (blanks c member)

theorem after_word {s : Reading} (outside : s.Outside) {k : List Char}
    (plain : ∀ c ∈ k, Token.isWordChar c = true) :
    (s.after k).Outside ∧ (s.after k).depth = s.depth := by
  apply after_unmarked outside
  intro c member
  exact unmarked_of_isWordChar (plain c member)

theorem next_of_outside {s t : Reading} (left : s.Outside) (right : t.Outside)
    (level : s.depth = t.depth) (c : Char) : s.next c = t.next c := by
  simp only [next, inside_of_outside left, inside_of_outside right, level,
    Quoting.next_outside left, Quoting.next_outside right]

theorem after_of_outside {s t : Reading} (left : s.Outside) (right : t.Outside)
    (level : s.depth = t.depth) {text : List Char} (nonempty : text ≠ []) :
    s.after text = t.after text := by
  cases text with
  | nil => exact absurd rfl nonempty
  | cons c r => rw [after_cons, after_cons, next_of_outside left right level]

end Reading

/-! ## Runs -/

namespace Piece

theorem mem_prepend {depth : Nat} {c : Char} {x : Piece} {ps : List Piece}
    (member : x ∈ prepend depth c ps) : (∃ t, x = word depth (c :: t)) ∨ x ∈ ps := by
  cases ps with
  | nil =>
      simp only [prepend, List.mem_singleton] at member
      exact Or.inl ⟨[], member⟩
  | cons p rest =>
      cases p with
      | word _ s =>
          simp only [prepend, List.mem_cons] at member
          rcases member with h | h
          · exact Or.inl ⟨s, h⟩
          · exact Or.inr (List.mem_cons_of_mem _ h)
      | gap b =>
          simp only [prepend, List.mem_cons] at member
          rcases member with h | h | h
          · exact Or.inl ⟨[], h⟩
          · exact Or.inr (by simp [h])
          · exact Or.inr (List.mem_cons_of_mem _ h)

theorem prepend_append_gap (depth : Nat) (c b : Char) (ps qs : List Piece) :
    prepend depth c (ps ++ gap b :: qs) = prepend depth c ps ++ gap b :: qs := by
  cases ps with
  | nil => rfl
  | cons p rest => cases p <;> rfl

theorem text_prepend (depth : Nat) (c : Char) (ps : List Piece) :
    (prepend depth c ps).flatMap text = c :: ps.flatMap text := by
  cases ps with
  | nil => rfl
  | cons p rest => cases p <;> rfl

theorem scan_outside {q : Quoting} (outside : q.quote = none) (depth : Nat) (s : List Char) :
    scan q depth s = scan {} depth s := by
  cases s with
  | nil => rfl
  | cons c r => simp [scan, Quoting.inside, outside, Quoting.next_outside outside]

theorem text_scan (q : Quoting) (depth : Nat) (s : List Char) :
    (scan q depth s).flatMap text = s := by
  induction s generalizing q depth with
  | nil => rfl
  | cons c r ih =>
      simp only [scan]
      split
      · rw [text_prepend, ih]
      · split
        · simp [text, ih]
        · rw [text_prepend, ih]

/-- A blank outside strings parts what is read before it from what is read after it. -/
theorem scan_append_gap (s : Reading) (a : List Char) {c : Char} (r : List Char)
    (outside : (s.after a).Outside) (blank : Text.isBlank c = true) :
    scan s.quoting s.depth (a ++ c :: r) =
      scan s.quoting s.depth a ++ gap c :: scan {} (s.after a).depth r := by
  induction a generalizing s with
  | nil =>
      rw [Reading.after_nil] at outside ⊢
      have step : (s.quoting.next c).quote = none := (Reading.next_blank outside blank).1
      simp only [List.nil_append, scan, Reading.inside_of_outside outside, blank, if_true,
        Bool.false_eq_true, if_false]
      rw [scan_outside step]
  | cons d a ih =>
      rw [Reading.after_cons] at outside ⊢
      have rest := ih (s.next d) outside
      -- the depth goes on changing only outside strings
      cases inside : s.quoting.inside with
      | true =>
          have same : (s.next d).depth = s.depth := by simp [Reading.next, inside]
          rw [same] at rest
          simp only [List.cons_append, scan, inside, if_true]
          rw [← prepend_append_gap]
          exact congrArg _ rest
      | false =>
          have same : (s.next d).depth = depthAfter s.depth d := by simp [Reading.next, inside]
          rw [same] at rest
          simp only [List.cons_append, scan, inside, Bool.false_eq_true, if_false]
          split
          · next gapped =>
              rw [depthAfter_blank gapped] at rest
              exact congrArg _ rest
          · rw [← prepend_append_gap]
            exact congrArg _ rest

theorem scan_blanks {q : Quoting} (outside : q.quote = none) (depth : Nat) {gap : List Char}
    (blanks : Text.Blanks gap) (r : List Char) :
    scan q depth (gap ++ r) = gap.map .gap ++ scan {} depth r := by
  induction gap generalizing q with
  | nil => exact scan_outside outside depth r
  | cons c gap ih =>
      have both := Text.blanks_cons.mp blanks
      have step : (q.next c).quote = none :=
        (Reading.next_blank (s := ⟨q, depth⟩) outside both.1).1
      have inside := Reading.inside_of_outside (s := ⟨q, depth⟩) outside
      simp only at inside
      simp only [List.cons_append, scan, inside, both.1, Bool.false_eq_true, if_false, if_true]
      rw [ih step both.2]
      rfl

theorem scan_wordChar {q : Quoting} (outside : q.quote = none) (depth : Nat) {c : Char}
    (plain : Token.isWordChar c = true) (r : List Char) :
    scan q depth (c :: r) = prepend depth c (scan (q.next c) depth r) := by
  obtain ⟨blank, _, opening, closing⟩ := Token.isWordChar_iff.mp plain
  have inside := Reading.inside_of_outside (s := ⟨q, depth⟩) outside
  simp only at inside
  simp only [scan, inside, blank, Bool.false_eq_true, if_false, if_neg closing,
    depthAfter_of_ne opening closing]

theorem scan_word {q : Quoting} (outside : q.quote = none) (depth : Nat) {k : List Char}
    (bare : Token.Bare k) : scan q depth k = [word depth k] := by
  obtain ⟨nonempty, plain⟩ := bare
  induction k generalizing q with
  | nil => exact absurd rfl nonempty
  | cons c r ih =>
      have step : (q.next c).quote = none :=
        (Reading.next_wordChar (s := ⟨q, depth⟩) outside (plain c (by simp))).1
      rw [scan_wordChar outside depth (plain c (by simp))]
      cases r with
      | nil => rfl
      | cons d r =>
          rw [ih step (by simp) (fun e member => plain e (List.mem_cons_of_mem _ member))]
          rfl

theorem scan_glued {w r t : List Char} {ps : List Piece} {depth : Nat}
    (plain : ∀ c ∈ w, Token.isWordChar c = true) (rest : scan {} depth r = word depth t :: ps)
    {q : Quoting} (outside : q.quote = none) :
    scan q depth (w ++ r) = word depth (w ++ t) :: ps := by
  induction w generalizing q with
  | nil => exact (scan_outside outside depth r).trans rest
  | cons c w ih =>
      have first := plain c (by simp)
      have step : (q.next c).quote = none :=
        (Reading.next_wordChar (s := ⟨q, depth⟩) outside first).1
      rw [List.cons_append, scan_wordChar outside depth first,
        ih (fun d member => plain d (List.mem_cons_of_mem _ member)) step]
      rfl

theorem scan_word_append {q : Quoting} (outside : q.quote = none) (depth : Nat) {k gap : List Char}
    (bare : Token.Bare k) (parts : Text.Gap gap) (r : List Char) :
    scan q depth (k ++ (gap ++ r)) = word depth k :: (gap.map .gap ++ scan {} depth r) := by
  have passed := Reading.after_word (s := ⟨q, depth⟩) outside bare.plain
  cases gap with
  | nil => exact absurd rfl parts.nonempty
  | cons c gap =>
      have both := Text.blanks_cons.mp parts.blanks
      have split := scan_append_gap ⟨q, depth⟩ k (gap ++ r) passed.1 both.1
      rw [passed.2, scan_word outside depth bare, scan_blanks rfl depth both.2] at split
      exact split

theorem scan_join {a before k behind : List Char} (outside : (Reading.after {} a).Outside)
    (level : (Reading.after {} a).depth = 0) (left : Text.Gap before) (bare : Token.Bare k)
    (right : Text.Gap behind) (r : List Char) :
    scan {} 0 (a ++ (before ++ (k ++ (behind ++ r)))) =
      (scan {} 0 a ++ before.map .gap) ++ word 0 k :: (behind.map .gap ++ scan {} 0 r) := by
  cases before with
  | nil => exact absurd rfl left.nonempty
  | cons b before =>
      have both := Text.blanks_cons.mp left.blanks
      have split := scan_append_gap {} a (before ++ (k ++ (behind ++ r))) outside both.1
      rw [level, scan_blanks rfl 0 both.2, scan_word_append rfl 0 bare right] at split
      rw [List.append_assoc]
      exact split

end Piece

/-! ## Cuts -/

def stretch (ps : List Piece) : List Char := Text.trim (ps.flatMap Piece.text)

theorem splitAtPieces_eq (p : Piece → Bool) (ps : List Piece) :
    splitAtPieces p ps = (ps.splitOnP p).map (List.flatMap Piece.text) := by
  induction ps with
  | nil => rfl
  | cons x xs ih =>
      rw [splitAtPieces, ih, List.splitOnP_cons_eq_if_modifyHead]
      by_cases cut : p x = true
      · rw [if_pos cut, if_pos cut]
        rfl
      · rw [if_neg cut, if_neg cut]
        cases split : xs.splitOnP p with
        | nil => exact absurd split (List.splitOnP_ne_nil p xs)
        | cons g gs => rfl

theorem splitAtKeyword_eq (keyword : String) (s : List Char) :
    splitAtKeyword keyword s =
      ((Piece.scan {} 0 s).splitOnP (Piece.isKeyword keyword)).map stretch := by
  rw [splitAtKeyword, splitAtPieces_eq, List.map_map]
  rfl

theorem flatMap_text_gaps (gap : List Char) : (gap.map Piece.gap).flatMap Piece.text = gap := by
  induction gap with
  | nil => rfl
  | cons c r ih =>
      rw [List.map_cons, List.flatMap_cons, ih]
      rfl

theorem map_stretch_splitOnP_gaps (keyword : String) {gap : List Char} (blanks : Text.Blanks gap)
    (ps : List Piece) :
    ((gap.map Piece.gap ++ ps).splitOnP (Piece.isKeyword keyword)).map stretch =
      (ps.splitOnP (Piece.isKeyword keyword)).map stretch := by
  induction gap with
  | nil => rfl
  | cons c gap ih =>
      have both := Text.blanks_cons.mp blanks
      have uncut : ¬ Piece.isKeyword keyword (.gap c) = true := by simp [Piece.isKeyword]
      rw [← ih both.2, List.map_cons, List.cons_append, List.splitOnP_cons_eq_if_modifyHead, if_neg uncut]
      cases split : (gap.map Piece.gap ++ ps).splitOnP (Piece.isKeyword keyword) with
      | nil => rfl
      | cons g gs =>
          have same : stretch (.gap c :: g) = stretch g := by
            simp only [stretch, List.flatMap_cons, Piece.text]
            exact Text.trim_cons_blank both.1 _
          simp only [List.modifyHead, List.map_cons, same]

end FileQuery.Where
