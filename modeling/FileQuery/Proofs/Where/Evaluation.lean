import FileQuery.Proofs.Where.Clause

/-! # What a printed clause holds of

The query made of a printed clause holds of a record exactly when the clause does
(`holds_ofClause_print`): its disjunctions, conjunctions and groups mean what they say, whatever else
is reported on the way. -/
set_option autoImplicit false
namespace FileQuery.Where

namespace Reported

variable {α β : Type}

theorem fst_all (f : α → Reported β) (xs : List α) :
    (all f xs).1 = xs.map fun x => (f x).1 := by
  induction xs with
  | nil => rfl
  | cons x xs ih => rw [all, List.map_cons, ← ih]

end Reported

/-! ## Predicates of texts -/

/-- A condition is read only if its attribute can be tested with its operator. -/
theorem Condition.allows_of_parse {text : List Char} {c : Condition}
    (parsed : Condition.parse text = .ok c) : c.subject.allows c.operator = true := by
  rw [Condition.parse] at parsed
  cases cut : Condition.cut? (Text.trim text) with
  | none =>
      rw [cut] at parsed
      cases parsed
  | some parts =>
      obtain ⟨label, operator, operand⟩ := parts
      simp only [cut] at parsed
      split at parsed
      · cases parsed
      · split at parsed
        · next allowed =>
            cases parsed
            exact allowed
        · cases parsed

theorem Predicate.ofText_eq_ok_iff {text : List Char} {p : Predicate} :
    Predicate.ofText text = .ok p ↔
      Condition.parse text = .ok p.condition ∧ p.condition.toTest = .ok p.test := by
  rw [Predicate.ofText]
  cases parsed : Condition.parse text with
  | error e =>
      constructor
      · rintro ⟨⟩
      · rintro ⟨⟨⟩, -⟩
  | ok c =>
      simp only [bind, Except.bind]
      cases tested : c.toTest with
      | error reason =>
          constructor
          · rintro ⟨⟩
          · rintro ⟨same, test⟩
            rw [← Except.ok.inj same, tested] at test
            cases test
      | ok t =>
          constructor
          · rintro ⟨⟩
            exact ⟨rfl, tested⟩
          · obtain ⟨c', t'⟩ := p
            rintro ⟨same, test⟩
            obtain rfl := Except.ok.inj same
            rw [Except.ok.inj (tested.symm.trans test)]
            rfl

/-! ## What holds -/

variable (contents : Contents) (r : Record)

theorem fst_allHold (ns : List Node) :
    (allHold contents r ns).1 = ns.all fun n => (n.holds contents r).1 := by
  induction ns with
  | nil => rw [allHold]; rfl
  | cons n ns ih =>
      rw [allHold, List.all_cons, ← ih]
      split
      · next es here => simp [here]
      · next es here => simp [here]

theorem fst_anyHolds (gs : List (List Node)) :
    (anyHolds contents r gs).1 = gs.any fun g => (allHold contents r g).1 := by
  induction gs with
  | nil => rw [anyHolds]; rfl
  | cons g gs ih =>
      rw [anyHolds, List.any_cons, ← ih]
      split
      · next es here => simp [here]
      · next es here => simp [here]

/-- The nodes of a clause with so many levels of parentheses left. -/
def nodesOf (levels : Nat) (clause : List Char) : List (List Node) :=
  (Reported.all (Reported.all (Node.ofText levels)) (parseClause clause)).1

theorem nodesOf_print (levels : Nat) (e : Clause) :
    nodesOf levels e.print =
      e.conjunctions.map fun g => g.parts.map fun p => (Node.ofText levels p.print).1 := by
  rw [nodesOf, Reported.fst_all, parseClause_print, List.map_map]
  apply List.map_congr_left
  intro g _
  simp only [Function.comp, Reported.fst_all, List.map_map]
  rfl

theorem anyHolds_print (levels : Nat) (e : Clause) :
    (anyHolds contents r (nodesOf levels e.print)).1 =
      e.conjunctions.any fun g => g.parts.all fun p =>
        ((Node.ofText levels p.print).1.holds contents r).1 := by
  rw [fst_anyHolds, nodesOf_print, List.any_map]
  congr 1
  funext g
  simp only [Function.comp, fst_allHold, List.all_map]
  rfl

theorem Atom.holds_ofText (levels : Nat) (a : Atom) :
    ((Node.ofText levels a.text).1.holds contents r).1 = true ↔ a.Holds contents r := by
  rw [Node.ofText.eq_def, if_neg (by simp [a.notWrapped])]
  simp only [Predicate.ofText, Atom.Holds]
  cases parsed : Condition.parse a.text with
  | error e => simp [bind, Except.bind, Node.holds]
  | ok c =>
      cases tested : c.toTest with
      | error reason =>
          simp [bind, Except.bind, tested, throw, throwThe, MonadExceptOf.throw, Node.holds]
      | ok t =>
          cases result : Predicate.test? ⟨c, t⟩ contents r with
          | error reason =>
              simp [bind, Except.bind, tested, pure, Except.pure, Node.holds, Predicate.holds,
                result]
          | ok b =>
              simp [bind, Except.bind, tested, pure, Except.pure, Node.holds, Predicate.holds,
                result]

theorem Node.ofText_wrapped {e : Clause} (levels : Nat) :
    (Node.ofText levels ('(' :: (e.print ++ [')']))).1 =
      match levels with
      | 0 => .unreadable
      | n + 1 => .group (nodesOf n e.print) := by
  have wrapped := isWrapped_wrap e.closed_print
  have inside : inner ('(' :: (e.print ++ [')'])) = e.print := by simp [inner]
  rw [Node.ofText.eq_def, if_pos wrapped]
  cases levels with
  | zero => rfl
  | succ n => simp only [inside, nodesOf]

mutual

-- The levels that are left and the level that is reached make up the limit, so the last group that
-- can be read is the one the semantics lets hold.
theorem Clause.anyHolds_iff (levels level : Nat) (deep : level + levels = 64) : ∀ e : Clause,
    (e.conjunctions.any fun g => g.parts.all fun p =>
        ((Node.ofText levels p.print).1.holds contents r).1) = true ↔
      e.Holds contents r level
  | .one g => by
      have here := g.allHold_iff levels level deep
      simpa [Clause.conjunctions, Clause.Holds] using here
  | .or g e => by
      have here := g.allHold_iff levels level deep
      have rest := e.anyHolds_iff levels level deep
      rw [Clause.conjunctions, List.any_cons, Bool.or_eq_true, here, rest, Clause.Holds]

theorem Conjunction.allHold_iff (levels level : Nat) (deep : level + levels = 64) :
    ∀ g : Conjunction,
    (g.parts.all fun p => ((Node.ofText levels p.print).1.holds contents r).1) = true ↔
      g.Holds contents r level
  | .one p => by
      have here := p.holds_iff levels level deep
      simpa [Conjunction.parts, Conjunction.Holds] using here
  | .and p g => by
      have here := p.holds_iff levels level deep
      have rest := g.allHold_iff levels level deep
      rw [Conjunction.parts, List.all_cons, Bool.and_eq_true, here, rest, Conjunction.Holds]

theorem Part.holds_iff (levels level : Nat) (deep : level + levels = 64) : ∀ p : Part,
    ((Node.ofText levels p.print).1.holds contents r).1 = true ↔ p.Holds contents r level
  | .atom a => a.holds_ofText contents r levels
  | .group e => by
      rw [Part.print, Node.ofText_wrapped, Part.Holds]
      cases levels with
      | zero =>
          have beyond : ¬ level + 1 ≤ 64 := by omega
          simp [Node.holds, beyond]
      | succ n =>
          have within : level + 1 ≤ 64 := by omega
          have below := e.anyHolds_iff n (level + 1) (by omega)
          simp only [Node.holds, anyHolds_print, within, true_and]
          exact below

end

/-- A printed clause holds of a record exactly when the expression does. -/
theorem holds_ofClause_print (e : Clause) :
    ((Query.ofClause (String.ofList e.print)).1.holds contents r).1 = true ↔
      e.Holds contents r 0 := by
  have levels : (maxNesting - 0 : Int).toNat = 64 := by decide
  have made : (Query.ofClause (String.ofList e.print)).1.groups = nodesOf 64 e.print := by
    simp only [Query.ofClause, Query.ofClauseAt, String.toList_ofList, levels, nodesOf]
  rw [Query.holds, made, anyHolds_print]
  exact e.anyHolds_iff contents r 64 0 (by omega)

end FileQuery.Where
