import FileQuery.Where.Predicate
import FileQuery.Where.Scan

/-! Queries: clauses with every condition read once. A condition that cannot be read is reported
when the query is made and holds of no record; one that cannot be tested on a record is reported
then and does not hold of it. -/
set_option autoImplicit false
namespace FileQuery.Where

inductive Node where
  | unreadable
  | leaf (p : Predicate)
  | group (groups : List (List Node))

def maxNesting : Nat := 64

/-- A part read, with what is reported about it. -/
abbrev Reported (α : Type) := α × List ConditionError

namespace Reported

def all {α β : Type} (f : α → Reported β) : List α → Reported (List β)
  | [] => ([], [])
  | x :: xs =>
    let (y, es) := f x
    let (ys, es') := all f xs
    (y :: ys, es ++ es')

end Reported

def inner (text : List Char) : List Char := text.tail.dropLast

/-- Reads one part of a conjunction; `levels` is how many levels of parentheses may still open. -/
def Node.ofText (levels : Nat) (text : List Char) : Reported Node :=
  if isWrapped text then
    match levels with
    | 0 => (.unreadable, [⟨String.ofList text, .tooDeep⟩])
    | n + 1 =>
      let (groups, es) := Reported.all (Reported.all (Node.ofText n)) (parseClause (inner text))
      (.group groups, es)
  else
    match Predicate.ofText text with
    | .ok p => (.leaf p, [])
    | .error e => (.unreadable, [e])

structure Query where
  groups : List (List Node)

def Query.ofClauseAt (depth : Int) (clause : List Char) : Reported Query :=
  let levels := (maxNesting - depth).toNat
  let (groups, es) := Reported.all (Reported.all (Node.ofText levels)) (parseClause clause)
  (⟨groups⟩, es)

def Query.ofClause (clause : String) : Reported Query := Query.ofClauseAt 0 clause.toList

mutual

def Node.holds (contents : Contents) (r : Record) : Node → Reported Bool
  | .unreadable => (false, [])
  | .leaf p => p.holds contents r
  | .group groups => anyHolds contents r groups

/-- Whether some conjunction holds; those after the first that does are not looked at. -/
def anyHolds (contents : Contents) (r : Record) : List (List Node) → Reported Bool
  | [] => (false, [])
  | g :: gs =>
    match allHold contents r g with
    | (true, es) => (true, es)
    | (false, es) =>
      let (b, es') := anyHolds contents r gs
      (b, es ++ es')

def allHold (contents : Contents) (r : Record) : List Node → Reported Bool
  | [] => (true, [])
  | n :: ns =>
    match n.holds contents r with
    | (false, es) => (false, es)
    | (true, es) =>
      let (b, es') := allHold contents r ns
      (b, es ++ es')

end

namespace Query

def holds (q : Query) (contents : Contents) (r : Record) : Reported Bool :=
  anyHolds contents r q.groups

def filter (q : Query) (contents : Contents) : List Record → Reported (List Record)
  | [] => ([], [])
  | r :: rs =>
    let (b, es) := q.holds contents r
    let (kept, es') := filter q contents rs
    (if b then r :: kept else kept, es ++ es')

end Query

end FileQuery.Where
