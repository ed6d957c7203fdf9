import FileQuery.Proofs.Where.Joined
import Mathlib.Data.List.Chain

/-! # The cuts of a clause

Runs and text determine each other: a run that stands alone between blanks begins where the reading
of what stands before it ends (`scan_eq_append_gap`), so no run is read differently once a clause is
cut. The conditions of a clause are what its runs are cut into at OR, and these at AND
(`parseClause_eq_cuts`). -/
set_option autoImplicit false
namespace FileQuery.Where

namespace Piece

def isGap : Piece → Bool
  | gap _ => true
  | word _ _ => false

theorem of_prepend_eq_append {depth : Nat} {c b : Char} {ps before behind : List Piece}
    (same : prepend depth c ps = before ++ gap b :: behind) :
    ∃ rest, ps = rest ++ gap b :: behind ∧ before = prepend depth c rest := by
  cases before with
  | nil =>
      obtain _ | ⟨_ | _, ps⟩ := ps <;> exact absurd same (by simp [prepend])
  | cons x before =>
      obtain _ | ⟨⟨d, w⟩ | e, ps⟩ := ps
      · simp [prepend] at same
      · simp only [prepend, List.cons_append, List.cons.injEq] at same
        obtain ⟨rfl, rfl⟩ := same
        exact ⟨word d w :: before, rfl, rfl⟩
      · simp only [prepend, List.cons_append, List.cons.injEq] at same
        obtain ⟨rfl, same⟩ := same
        cases before with
        | nil => exact ⟨[], same, rfl⟩
        | cons y before =>
            simp only [List.cons_append, List.cons.injEq] at same
            obtain ⟨rfl, rfl⟩ := same
            exact ⟨gap e :: before, rfl, rfl⟩

/-- What stands before a blank among the runs of a text is read in the same way without what comes
after it, and ends outside strings. -/
theorem scan_eq_append_gap {s : Reading} {text : List Char} {b : Char} {before behind : List Piece}
    (runs : scan s.quoting s.depth text = before ++ gap b :: behind) :
    (s.after (before.flatMap Piece.text)).Outside ∧ Text.isBlank b = true ∧
      scan s.quoting s.depth (before.flatMap Piece.text) = before ∧
      behind = scan {} (s.after (before.flatMap Piece.text)).depth (behind.flatMap Piece.text) := by
  induction text generalizing s before with
  | nil => simp [scan] at runs
  | cons c r ih =>
      cases inside : s.quoting.inside with
      | true =>
          have step : s.next c = ⟨s.quoting.next c, s.depth⟩ := by simp [Reading.next, inside]
          simp only [scan, inside, if_true] at runs
          obtain ⟨rest, inner, rfl⟩ := of_prepend_eq_append runs
          have found := ih (s := ⟨s.quoting.next c, s.depth⟩) inner
          rw [text_prepend, Reading.after_cons, step]
          refine ⟨found.1, found.2.1, ?_, found.2.2.2⟩
          simp only [scan, inside, if_true]
          rw [found.2.2.1]
      | false =>
          have step : s.next c = ⟨s.quoting.next c, depthAfter s.depth c⟩ := by
            simp [Reading.next, inside]
          simp only [scan, inside, Bool.false_eq_true, if_false] at runs
          split at runs
          · next blank =>
              rw [depthAfter_blank blank] at step
              have outside := Reading.outside_of_inside inside
              -- the blank may be the one in question, or one before it
              cases before with
              | nil =>
                  simp only [List.nil_append, List.cons.injEq, gap.injEq] at runs
                  obtain ⟨rfl, rfl⟩ := runs
                  refine ⟨outside, blank, rfl, ?_⟩
                  have next : (s.quoting.next c).quote = none :=
                    (Reading.next_blank outside blank).1
                  rw [text_scan, scan_outside next]
                  rfl
              | cons x before =>
                  simp only [List.cons_append, List.cons.injEq] at runs
                  obtain ⟨rfl, inner⟩ := runs
                  have found := ih (s := ⟨s.quoting.next c, s.depth⟩) inner
                  rw [List.flatMap_cons, Piece.text, List.singleton_append, Reading.after_cons, step]
                  refine ⟨found.1, found.2.1, ?_, found.2.2.2⟩
                  simp only [scan, inside, blank, Bool.false_eq_true, if_false, if_true]
                  rw [found.2.2.1]
          · next blank =>
              obtain ⟨rest, inner, rfl⟩ := of_prepend_eq_append runs
              have found := ih (s := ⟨s.quoting.next c, depthAfter s.depth c⟩) inner
              rw [text_prepend, Reading.after_cons, step]
              refine ⟨found.1, found.2.1, ?_, found.2.2.2⟩
              simp only [scan, inside, blank, Bool.false_eq_true, if_false]
              rw [found.2.2.1]

theorem isChain_scan (q : Quoting) (depth : Nat) (s : List Char) :
    (scan q depth s).IsChain fun x y => x.isGap = true ∨ y.isGap = true := by
  induction s generalizing q depth with
  | nil => exact .nil
  | cons c r ih =>
      have prepended : ∀ (level : Nat) (ps : List Piece),
          (ps.IsChain fun x y => x.isGap = true ∨ y.isGap = true) →
          (prepend level c ps).IsChain fun x y => x.isGap = true ∨ y.isGap = true := by
        intro level ps chain
        obtain _ | ⟨⟨_, w⟩ | e, ps⟩ := ps
        · exact .singleton _
        · cases chain with
          | singleton => exact .singleton _
          | cons_cons first rest => exact .cons_cons first rest
        · exact .cons_cons (Or.inr rfl) chain
      simp only [scan]
      split
      · exact prepended _ _ (ih _ _)
      · split
        · cases rest : scan (q.next c) depth r with
          | nil => exact .singleton _
          | cons y ys => exact .cons_cons (Or.inl rfl) (rest ▸ ih _ _)
        · exact prepended _ _ (ih _ _)

theorem scan_eq_word {depth level : Nat} {s k : List Char} {behind : List Piece}
    (runs : scan {} depth s = word level k :: behind) (bare : Token.Bare k) :
    level = depth ∧ behind = scan {} depth (behind.flatMap text) := by
  have passed := Reading.after_word (s := ⟨{}, depth⟩) rfl bare.plain
  have whole := text_scan {} depth s
  have chain := isChain_scan {} depth s
  rw [runs] at whole chain
  -- what comes next is no word, so it is a blank that parts it from the rest
  cases behind with
  | nil =>
      simp only [List.flatMap_cons, text, List.flatMap_nil, List.append_nil] at whole
      rw [← whole, scan_word rfl depth bare] at runs
      simp only [List.cons.injEq, word.injEq, and_true] at runs
      exact ⟨runs.symm, rfl⟩
  | cons x behind =>
      cases x with
      | word _ _ =>
          cases chain with
          | cons_cons first _ => exact absurd first (by simp [isGap])
      | gap c =>
          have pieces : scan {} depth s = [word level k] ++ gap c :: behind := runs
          have found := scan_eq_append_gap (s := ⟨{}, depth⟩) pieces
          simp only [List.flatMap_cons, text, List.flatMap_nil, List.append_nil] at found
          obtain ⟨_, blank, first, rest⟩ := found
          rw [passed.2] at rest
          have here : scan {} depth k = [word level k] := first
          rw [scan_word rfl depth bare] at here
          simp only [List.cons.injEq, word.injEq, and_true] at here
          refine ⟨here.symm, ?_⟩
          have split := scan_blanks (q := {}) rfl depth (Text.gap_singleton blank).blanks
            (behind.flatMap text)
          rw [List.flatMap_cons, text, split, ← rest]
          rfl

/-- What stands before a bare word outside parentheses, and what stands after it, are read in the
same way without each other. -/
theorem scan_eq_append_word {s k : List Char} {before behind : List Piece}
    (runs : scan {} 0 s = before ++ word 0 k :: behind) (bare : Token.Bare k) :
    (Reading.after {} (before.flatMap text)).Outside ∧
      (Reading.after {} (before.flatMap text)).depth = 0 ∧
      scan {} 0 (before.flatMap text) = before ∧
      scan {} 0 (behind.flatMap text) = behind := by
  rcases List.eq_nil_or_concat before with rfl | ⟨a, x, rfl⟩
  · exact ⟨rfl, rfl, rfl, (scan_eq_word runs bare).2.symm⟩
  · have chain := isChain_scan {} 0 s
    rw [runs, List.concat_eq_append, List.append_assoc] at chain
    rw [List.concat_eq_append] at runs ⊢
    cases x with
    | word _ _ =>
        cases chain.right_of_append with
        | cons_cons first _ => exact absurd first (by simp [isGap])
    | gap c =>
        rw [List.append_assoc, List.singleton_append] at runs
        obtain ⟨outside, blank, first, rest⟩ := scan_eq_append_gap (s := {}) runs
        obtain ⟨level, rest⟩ := scan_eq_word rest.symm bare
        have next := Reading.next_blank outside blank
        have split := scan_append_gap {} (a.flatMap text) [] outside blank
        have whole : (a ++ [gap c]).flatMap text = a.flatMap text ++ [c] := by simp [text]
        rw [← level] at rest
        rw [whole, Reading.after_append]
        refine ⟨next.1, next.2.trans level.symm, ?_, rest.symm⟩
        rw [split, first]
        rfl

theorem scan_append_blanks {s : Reading} {a trail : List Char} (outside : (s.after a).Outside)
    (blanks : Text.Blanks trail) :
    scan s.quoting s.depth (a ++ trail) = scan s.quoting s.depth a ++ trail.map gap := by
  cases trail with
  | nil => simp
  | cons c trail =>
      have both := Text.blanks_cons.mp blanks
      have rest := scan_blanks (q := {}) rfl (s.after a).depth both.2 []
      rw [List.append_nil] at rest
      rw [scan_append_gap s a trail outside both.1, rest]
      simp [scan]

end Piece

/-! ## Blanks around a clause -/

namespace Reading

theorem isQuote_of_mem_after {s : Reading} (sound : ∀ d ∈ s.quoting.quote, Quoting.isQuote d = true)
    (text : List Char) : ∀ d ∈ (s.after text).quoting.quote, Quoting.isQuote d = true := by
  induction text generalizing s with
  | nil => exact sound
  | cons c r ih =>
      refine ih (s := s.next c) ?_
      intro d member
      cases open' : s.quoting.quote with
      | none =>
          simp only [next, Quoting.next, open'] at member
          split at member
          · next quote =>
              rw [Option.mem_def, Option.some.injEq] at member
              exact member ▸ quote
          · exact absurd member (by simp)
      | some e =>
          simp only [next, Quoting.next, open'] at member
          split at member
          · exact absurd member (by simp)
          · rw [Option.mem_def, Option.some.injEq] at member
            exact member ▸ sound e open'

theorem outside_of_after_blanks {text gap : List Char} (blanks : Text.Blanks gap)
    (outside : (after {} (text ++ gap)).Outside) : (after {} text).Outside := by
  induction gap generalizing text with
  | nil => simpa using outside
  | cons c r ih =>
      have both := Text.blanks_cons.mp blanks
      have step : (after {} (text ++ [c])).Outside := ih both.2 (by simpa using outside)
      rw [after_append] at step
      cases open' : (after {} text).quoting.quote with
      | none => exact open'
      | some d =>
          have quote := isQuote_of_mem_after (s := {}) (by simp) text d open'
          have other : c ≠ d := by
            rintro rfl
            rw [Token.isBlank_of_isQuote quote] at both
            exact absurd both.1 (by decide)
          simp [Outside, after_cons, after_nil, next, Quoting.next, open', other] at step

end Reading

theorem splitOnP_append_of_forall {p : Piece → Bool} {gs : List Piece}
    (uncut : ∀ x ∈ gs, p x = false) (ps : List Piece) :
    ∃ init last, ps.splitOnP p = init ++ [last] ∧ (ps ++ gs).splitOnP p = init ++ [last ++ gs] := by
  induction ps with
  | nil => exact ⟨[], [], rfl, by simpa using List.splitOnP_eq_singleton uncut⟩
  | cons x xs ih =>
      obtain ⟨init, last, left, right⟩ := ih
      rw [List.cons_append, List.splitOnP_cons_eq_if_modifyHead,
        List.splitOnP_cons_eq_if_modifyHead, left, right]
      by_cases cut : p x = true
      · rw [if_pos cut, if_pos cut]
        exact ⟨[] :: init, last, rfl, rfl⟩
      · rw [if_neg cut, if_neg cut]
        cases init with
        | nil => exact ⟨[], x :: last, rfl, rfl⟩
        | cons g gs => exact ⟨(x :: g) :: gs, last, rfl, rfl⟩

theorem map_stretch_splitOnP_append_gaps (keyword : String) (ps : List Piece) {gap : List Char}
    (blanks : Text.Blanks gap) :
    ((ps ++ gap.map Piece.gap).splitOnP (Piece.isKeyword keyword)).map stretch =
      (ps.splitOnP (Piece.isKeyword keyword)).map stretch := by
  obtain ⟨init, last, left, right⟩ := splitOnP_append_of_forall (isKeyword_gaps keyword gap) ps
  have same : stretch (last ++ gap.map Piece.gap) = stretch last := by
    have padded := Text.trim_pad (l := []) Text.blanks_nil blanks (last.flatMap Piece.text)
    rw [stretch, List.flatMap_append, flatMap_text_gaps]
    exact padded
  rw [left, right, List.map_append, List.map_append, List.map_singleton, List.map_singleton, same]

/-- Whether trimming a text takes no blank off a string: it ends outside strings, or with no blank. -/
def Settled (s : List Char) : Prop :=
  (Reading.after {} s).Outside ∨ ∀ c ∈ s.getLast?, Text.isBlank c = false

theorem settled_trim (s : List Char) : Settled (Text.trim s) :=
  .inr (Text.trim_eq_self_iff.mp (Text.trim_trim s)).2

/-- The runs of a text are the blanks around it and the runs of what is between them. -/
theorem scan_trim {s : List Char} (settled : Settled s) :
    ∃ lead trail, Text.Blanks lead ∧ Text.Blanks trail ∧ s = lead ++ (Text.trim s ++ trail) ∧
      Piece.scan {} 0 s =
        lead.map Piece.gap ++ (Piece.scan {} 0 (Text.trim s) ++ trail.map Piece.gap) := by
  obtain ⟨lead, trail, first, last, same⟩ := Text.exists_trim s
  refine ⟨lead, trail, first, last, same, ?_⟩
  have whole := Piece.scan_blanks (q := {}) rfl 0 first (Text.trim s ++ trail)
  rw [← same] at whole
  rw [whole]
  refine congrArg _ ?_
  rcases settled with outside | ends
  · have padded : (Reading.after {} (lead ++ Text.trim s)).Outside := by
      apply Reading.outside_of_after_blanks last
      rwa [List.append_assoc, ← same]
    have core : (Reading.after {} (Text.trim s)).Outside := by
      by_cases empty : Text.trim s = []
      · rw [empty]
        rfl
      · have passed := Reading.after_blanks (s := {}) rfl first
        rw [Reading.after_append,
          Reading.after_of_outside (t := {}) passed.1 rfl passed.2 empty] at padded
        exact padded
    exact Piece.scan_append_blanks (s := {}) core last
  · -- a text that ends with no blank has none to lose at its end
    have none : trail = [] := by
      cases found : trail.getLast? with
      | none => exact List.getLast?_eq_none_iff.mp found
      | some c =>
          have blank := last c (List.mem_of_getLast? found)
          rw [same, ← List.append_assoc] at ends
          rw [ends c (Text.mem_getLast_append found _)] at blank
          cases blank
    simp [none]

theorem splitAtKeyword_trim (keyword : String) {s : List Char} (settled : Settled s) :
    splitAtKeyword keyword (Text.trim s) =
      ((Piece.scan {} 0 s).splitOnP (Piece.isKeyword keyword)).map stretch := by
  obtain ⟨lead, trail, first, last, _, runs⟩ := scan_trim settled
  rw [runs, map_stretch_splitOnP_gaps keyword first, map_stretch_splitOnP_append_gaps keyword _ last,
    splitAtKeyword_eq]

/-! ## One reading for all cuts -/

theorem spells_of_isKeyword {keyword : String} {x : Piece} (cut : x.isKeyword keyword = true) :
    ∃ k, x = .word 0 k ∧ Token.Spells keyword k := by
  cases x with
  | gap c => exact absurd cut (by simp [Piece.isKeyword])
  | word d k =>
      cases d with
      | succ n => exact absurd cut (by simp [Piece.isKeyword])
      | zero => exact ⟨k, rfl, by simpa [Piece.isKeyword, Token.Spells] using cut⟩

/-- What holds of lists that are not cut, and of a list if it holds of what is behind its first cut,
holds of all lists. -/
theorem splitOnP_induction {α : Type} {p : α → Bool} {motive : List α → Prop}
    (whole : ∀ xs, (∀ x ∈ xs, p x = false) → motive xs)
    (cut : ∀ before x behind, (∀ y ∈ before, p y = false) → p x = true → motive behind →
      motive (before ++ x :: behind)) (xs : List α) : motive xs := by
  generalize size : xs.length = n
  induction n using Nat.strongRecOn generalizing xs with
  | ind n ih =>
      by_cases some : ∃ x ∈ xs, p x = true
      · obtain ⟨y, member, own⟩ := some
        obtain ⟨x, before, behind, plain, own, rfl, _⟩ := List.exists_of_eraseP member own
        refine cut before x behind (fun y member => by simpa using plain y member) own
          (ih behind.length ?_ behind rfl)
        rw [← size, List.length_append, List.length_cons]
        omega
      · refine whole xs fun x member => ?_
        by_contra own
        exact some ⟨x, member, by simpa using own⟩

/-- Whether a property holds of bare words outside parentheses only. -/
def CutsWords (p : Piece → Bool) : Prop := ∀ x, p x = true → ∃ k, x = .word 0 k ∧ Token.Bare k

theorem cutsWords_isKeyword {keyword : String} (bare : Token.Bare keyword.toList) :
    CutsWords (Piece.isKeyword keyword) := by
  intro x cut
  obtain ⟨k, same, spells⟩ := spells_of_isKeyword cut
  exact ⟨k, same, spells.bare bare⟩

/-- The runs between such words are those of their own text, which is settled; but for the last of
them it ends outside strings and parentheses. -/
theorem scan_of_mem_splitOnP {p : Piece → Bool} (words : CutsWords p) (ps : List Piece) :
    ∀ s : List Char, Piece.scan {} 0 s = ps → Settled s →
      (∀ g ∈ ps.splitOnP p,
        Piece.scan {} 0 (g.flatMap Piece.text) = g ∧ Settled (g.flatMap Piece.text)) ∧
      ∀ g ∈ (ps.splitOnP p).dropLast, (Reading.after {} (g.flatMap Piece.text)).Outside ∧
        (Reading.after {} (g.flatMap Piece.text)).depth = 0 := by
  induction ps using splitOnP_induction (p := p) with
  | whole ps free =>
      intro s runs settled
      rw [List.splitOnP_eq_singleton free]
      have text : ps.flatMap Piece.text = s := by rw [← runs, Piece.text_scan]
      refine ⟨fun g member => ?_, fun g member => by cases member⟩
      rw [List.mem_singleton.mp member, text]
      exact ⟨runs, settled⟩
  | cut before x behind free own ih =>
      intro s runs settled
      obtain ⟨k, rfl, bare⟩ := words x own
      obtain ⟨outside, level, first, second⟩ := Piece.scan_eq_append_word runs bare
      have text : s = before.flatMap Piece.text ++ (k ++ behind.flatMap Piece.text) := by
        rw [← Piece.text_scan {} 0 s, runs, List.flatMap_append, List.flatMap_cons, Piece.text]
      have later : Settled (behind.flatMap Piece.text) := by
        by_cases empty : behind.flatMap Piece.text = []
        · rw [empty]
          exact .inl rfl
        · rcases settled with stops | ends
          · have word := Reading.after_word outside bare.plain
            rw [text, Reading.after_append, Reading.after_append, Reading.after_of_outside
              (t := {}) word.1 rfl (word.2.trans level) empty] at stops
            exact .inl stops
          · refine .inr fun c last => ends c ?_
            rw [text, ← List.append_assoc]
            exact Text.mem_getLast_append last _
      have rest := ih _ second later
      rw [List.splitOnP_append_cons _ _ own, List.splitOnP_eq_singleton free, List.singleton_append,
        List.dropLast_cons_of_ne_nil (List.splitOnP_ne_nil p behind), List.forall_mem_cons,
        List.forall_mem_cons]
      exact ⟨⟨⟨first, .inl outside⟩, rest.1⟩, ⟨outside, level⟩, rest.2⟩

/-- The conditions that runs are cut into at OR, and these at AND, without empty ones. -/
def cuts (ps : List Piece) : List (List (List Char)) :=
  ((ps.splitOnP (Piece.isKeyword "OR")).map fun g =>
    ((g.splitOnP (Piece.isKeyword "AND")).map stretch).filter fun c => !c.isEmpty).filter
      fun g => !g.isEmpty

theorem parseClause_eq_cuts {clause : List Char} (settled : Settled clause) :
    parseClause clause =
      match cuts (Piece.scan {} 0 clause) with
      | [] => [[Text.trim clause]]
      | gs => gs := by
  have each : ∀ g ∈ (Piece.scan {} 0 clause).splitOnP (Piece.isKeyword "OR"),
      conditionsOf (stretch g) =
        ((g.splitOnP (Piece.isKeyword "AND")).map stretch).filter fun c => !c.isEmpty := by
    intro g member
    have own := (scan_of_mem_splitOnP (cutsWords_isKeyword bare_or) _ clause rfl settled).1 g member
    rw [conditionsOf, stretch, splitAtKeyword_trim "AND" own.2, own.1]
  have whole := parseClause_eq clause
  rw [splitAtKeyword_trim "OR" settled, List.map_map, List.map_congr_left (g := fun g =>
    ((g.splitOnP (Piece.isKeyword "AND")).map stretch).filter fun c => !c.isEmpty) each] at whole
  exact whole

end FileQuery.Where
