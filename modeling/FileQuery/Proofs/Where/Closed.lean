import FileQuery.Proofs.Where.Joined

/-! # Closed texts

A closed text ends outside strings and parentheses, and closes no parenthesis that it did not open.
Closed texts with a word between them are closed, and so is one in parentheses; the parentheses
around a closed text open and close together (`isWrapped_wrap`), and no keyword inside them stands at
the level outside (`isKeyword_scan_wrap`). -/
set_option autoImplicit false
namespace FileQuery.Where

/-- Whether every parenthesis that closes outside strings closes one that is open. -/
def Matched (s : Reading) : List Char → Prop
  | [] => True
  | c :: r => (c = ')' → s.quoting.inside = true ∨ 0 < s.depth) ∧ Matched (s.next c) r

instance decidableMatched (s : Reading) (text : List Char) : Decidable (Matched s text) :=
  match text with
  | [] => .isTrue trivial
  | c :: r =>
    have := decidableMatched (s.next c) r
    inferInstanceAs (Decidable ((c = ')' → s.quoting.inside = true ∨ 0 < s.depth) ∧
      Matched (s.next c) r))

theorem matched_append (s : Reading) (a b : List Char) :
    Matched s (a ++ b) ↔ Matched s a ∧ Matched (s.after a) b := by
  induction a generalizing s with
  | nil => simp [Matched, Reading.after_nil]
  | cons c r ih => simp only [List.cons_append, Matched, Reading.after_cons, ih, and_assoc]

/-! ## One level further in -/

namespace Reading

/-- The same point inside one more pair of parentheses. -/
def deeper (s : Reading) : Reading := ⟨s.quoting, s.depth + 1⟩

theorem next_deeper {s : Reading} {c : Char}
    (closes : c = ')' → s.quoting.inside = true ∨ 0 < s.depth) :
    s.deeper.next c = (s.next c).deeper := by
  cases inside : s.quoting.inside with
  | true => simp [deeper, next, inside]
  | false =>
      simp only [deeper, next, inside, Bool.false_eq_true, if_false, depthAfter, Reading.mk.injEq,
        true_and]
      by_cases closing : c = ')'
      · have positive := (closes closing).resolve_left (by simp [inside])
        subst closing
        simp only [Char.reduceEq, if_false, if_true]
        omega
      · simp only [if_neg closing]
        split <;> rfl

theorem after_deeper {s : Reading} {text : List Char} (matched : Matched s text) :
    s.deeper.after text = (s.after text).deeper := by
  induction text generalizing s with
  | nil => rfl
  | cons c r ih => rw [after_cons, after_cons, next_deeper matched.1, ih matched.2]

end Reading

theorem matched_deeper {s : Reading} {text : List Char} (matched : Matched s text) :
    Matched s.deeper text := by
  induction text generalizing s with
  | nil => trivial
  | cons c r ih =>
      refine ⟨fun _ => Or.inr (Nat.succ_pos s.depth), ?_⟩
      rw [Reading.next_deeper matched.1]
      exact ih matched.2

theorem matched_of_outside {s t : Reading} (left : s.Outside) (right : t.Outside)
    (level : s.depth = t.depth) {text : List Char} (matched : Matched s text) :
    Matched t text := by
  cases text with
  | nil => trivial
  | cons c r =>
      refine ⟨fun closing => ?_, Reading.next_of_outside left right level c ▸ matched.2⟩
      rcases matched.1 closing with inside | positive
      · rw [Reading.inside_of_outside left] at inside
        exact absurd inside (by decide)
      · exact Or.inr (level ▸ positive)

theorem matched_unmarked (s : Reading) {a : List Char} (plain : ∀ c ∈ a, Unmarked c) :
    Matched s a := by
  induction a generalizing s with
  | nil => trivial
  | cons c r ih =>
      refine ⟨?_, ih _ (fun d member => plain d (List.mem_cons_of_mem _ member))⟩
      intro closing
      exact absurd closing (plain c (by simp)).closing

/-! ## Closed texts -/

/-- A balanced text without a parenthesis that closes nothing. -/
structure Closed (text : List Char) : Prop extends Balanced text where
  matched : Matched {} text

namespace Closed

theorem join {a before k behind b : List Char} (left : Closed a) (right : Closed b)
    (first : Text.Gap before) (bare : Token.Bare k) (last : Text.Gap behind) :
    Closed (a ++ (before ++ (k ++ (behind ++ b)))) := by
  have plain := unmarked_joint first bare last
  have passed := Reading.after_unmarked left.outside plain
  have level := passed.2.trans left.level
  have parts : before ++ (k ++ (behind ++ b)) = (before ++ (k ++ behind)) ++ b := by simp
  refine ⟨left.toBalanced.join right.toBalanced first bare last, ?_⟩
  rw [parts, matched_append, matched_append]
  refine ⟨left.matched, matched_unmarked _ plain, ?_⟩
  exact matched_of_outside (s := {}) rfl passed.1 level.symm right.matched

theorem wrap {a : List Char} (closed : Closed a) : Closed ('(' :: (a ++ [')'])) := by
  have opened : Reading.next {} '(' = (Reading.deeper {}) := by decide
  have inner : (Reading.deeper {}).after a = (Reading.after {} a).deeper :=
    Reading.after_deeper closed.matched
  have inside : (Reading.after {} a).quoting.inside = false :=
    Reading.inside_of_outside closed.outside
  have last : (Reading.after {} a).deeper.next ')' = ⟨(Reading.after {} a).quoting.next ')', 0⟩ := by
    simp [Reading.next, inside, Reading.deeper, depthAfter, closed.level]
  have whole : Reading.after {} ('(' :: (a ++ [')'])) =
      ⟨(Reading.after {} a).quoting.next ')', 0⟩ := by
    rw [Reading.after_cons, Reading.after_append, opened, inner, Reading.after_cons, last]
    rfl
  have trimmed := Text.trim_between (Text.trim_singleton isBlank_paren.1)
    (Text.trim_singleton isBlank_paren.2) (by simp) (by simp) a
  refine ⟨⟨by simp, trimmed, ?_, ?_⟩, ?_⟩
  · have quote : (Reading.after {} a).quoting.quote = none := closed.outside
    rw [whole]
    simp [Reading.Outside, Quoting.next, quote, Quoting.isQuote]
  · rw [whole]
  · refine ⟨by simp, ?_⟩
    rw [opened, matched_append, inner]
    exact ⟨matched_deeper closed.matched, fun _ => Or.inr (Nat.succ_pos _), trivial⟩

end Closed

/-! ## Parentheses around a closed text -/

theorem closesAtEnd_append {s : Reading} {a : List Char} (matched : Matched s a) (r : List Char) :
    closesAtEnd s.quoting (s.depth + 1) (a ++ r) =
      closesAtEnd (s.after a).quoting ((s.after a).depth + 1) r := by
  induction a generalizing s with
  | nil => rfl
  | cons c a ih =>
      rw [Reading.after_cons, ← ih matched.2]
      cases inside : s.quoting.inside with
      | true => simp [closesAtEnd, Reading.next, inside]
      | false =>
          simp only [List.cons_append, closesAtEnd, Reading.next, inside, Bool.false_or,
            Bool.false_eq_true, if_false]
          by_cases quote : Quoting.isQuote c = true
          · obtain ⟨opening, closing⟩ := ne_paren_of_isQuote quote
            simp only [quote, if_true, depthAfter_of_ne opening closing]
          · by_cases closing : c = ')'
            · have positive := (matched.1 closing).resolve_left (by simp [inside])
              subst closing
              -- it closes an inner pair, so the outer one stays open
              have shallow : ¬ s.depth + 1 ≤ 1 := by omega
              have level : s.depth + 1 - 1 = s.depth - 1 + 1 := by omega
              simp [quote, shallow, depthAfter, level]
            · have level : depthAfter (s.depth + 1) c = depthAfter s.depth c + 1 := by
                simp only [depthAfter, if_neg closing]
                split <;> rfl
              simp only [quote, closing, decide_false, Bool.false_and, Bool.false_eq_true,
                if_false, level]

theorem isWrapped_wrap {a : List Char} (closed : Closed a) :
    isWrapped ('(' :: (a ++ [')'])) = true := by
  have inside := Reading.inside_of_outside closed.outside
  have run := closesAtEnd_append closed.matched [')']
  simp only [closed.level] at run
  simp only [isWrapped]
  refine run.trans ?_
  simp [closesAtEnd, inside, Quoting.isQuote]

/-- Of the runs of a text with a parenthesis open before it, those at the level outside begin at the
parenthesis that closes it. -/
theorem mem_scan_deeper {s : Reading} {a : List Char} (matched : Matched s a) {x : Piece}
    (member : x ∈ Piece.scan s.quoting (s.depth + 1) (a ++ [')'])) :
    (∃ c, x = .gap c) ∨ ∃ d t, x = .word d t ∧ (0 < d ∨ ')' ∈ t) := by
  induction a generalizing s with
  | nil =>
      right
      simp only [List.nil_append, Piece.scan, isBlank_paren.2, Bool.false_eq_true, if_false,
        if_true] at member
      split at member
      all_goals
        simp only [Piece.prepend, List.mem_singleton] at member
        exact ⟨_, _, member, Or.inr (by simp)⟩
  | cons c a ih =>
      have rest := ih matched.2
      cases inside : s.quoting.inside with
      | true =>
          simp only [Reading.next, inside, if_true] at rest
          simp only [List.cons_append, Piece.scan, inside, if_true] at member
          rcases Piece.mem_prepend member with ⟨t, h⟩ | h
          · exact Or.inr ⟨_, _, h, Or.inl (Nat.succ_pos _)⟩
          · exact rest h
      | false =>
          have below : depthAfter (s.depth + 1) c = depthAfter s.depth c + 1 := by
            have step := congrArg Reading.depth (Reading.next_deeper matched.1)
            simpa [Reading.next, Reading.deeper, inside] using step
          simp only [Reading.next, inside, Bool.false_eq_true, if_false] at rest
          simp only [List.cons_append, Piece.scan, inside, Bool.false_eq_true, if_false, below]
            at member
          split at member
          · next blank =>
              rcases List.mem_cons.mp member with h | h
              · exact Or.inl ⟨c, h⟩
              · rw [depthAfter_blank blank] at rest
                exact rest h
          · rcases Piece.mem_prepend member with ⟨t, h⟩ | h
            · refine Or.inr ⟨_, _, h, Or.inl ?_⟩
              split <;> exact Nat.succ_pos _
            · exact rest h

theorem isKeyword_scan_wrap {keyword : String} {a : List Char} (closed : Closed a)
    (opening : '(' ∉ keyword.toList) (closing : ')' ∉ keyword.toList) :
    ∀ x ∈ Piece.scan {} 0 ('(' :: (a ++ [')'])), x.isKeyword keyword = false := by
  intro x member
  have first : Quoting.next {} '(' = {} := by decide
  have run : Piece.scan {} 0 ('(' :: (a ++ [')'])) =
      Piece.prepend 0 '(' (Piece.scan {} 1 (a ++ [')'])) := by
    simp [Piece.scan, Quoting.inside, isBlank_paren.1, depthAfter, first]
  rw [run] at member
  rcases Piece.mem_prepend member with ⟨t, h⟩ | h
  · rw [h]
    exact isKeyword_of_mem 0 (c := '(') (by simp) (by decide) opening
  · rcases mem_scan_deeper (s := {}) closed.matched h with ⟨c, h⟩ | ⟨d, t, h, deep | shut⟩
    · rw [h]
      rfl
    · cases d with
      | zero => exact absurd deep (Nat.lt_irrefl 0)
      | succ n =>
          rw [h]
          rfl
    · rw [h]
      exact isKeyword_of_mem d shut (by decide) closing

end FileQuery.Where
