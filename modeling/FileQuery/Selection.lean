import FileQuery.Where.Query

/-! Selections: records filtered by a clause and put in order. -/
set_option autoImplicit false
namespace FileQuery

structure UnknownSortField where
  field : String
  deriving DecidableEq, Repr

namespace UnknownSortField

def suggestion (best? : Matcher) (e : UnknownSortField) : Option String :=
  closest? best? (Text.mapString (fun s => Text.lower (Text.trim s)) e.field) Field.labels

def message (e : UnknownSortField) (suggestion : Option String) : String :=
  "Unknown ORDER BY field: " ++ e.field ++
    match suggestion with
    | some s => if s.isEmpty then "" else " (did you mean '" ++ s ++ "'?)"
    | none => ""

end UnknownSortField

namespace SortSpec

def resolve (spec : SortSpec) : Except UnknownSortField Field :=
  match Field.ofName? spec.field with
  | some f => .ok f
  | none => .error ⟨spec.field⟩

def le (d : Direction) (f : Field) (a b : Record) : Bool :=
  match d with
  | .ascending => (a.get f).le (b.get f)
  | .descending => (b.get f).le (a.get f)

end SortSpec

/-- Sorts by a field; records with equal values keep their order in both directions. -/
def sortRecords (d : Direction) (f : Field) (rs : List Record) : List Record :=
  rs.mergeSort (SortSpec.le d f)

/-- Filters by a clause, if there is one with any text, then orders, if an order is given. An
unknown field is refused before any condition is looked at. -/
def select (contents : Where.Contents) (clause : Option String) (order : Option SortSpec)
    (records : List Record) : Except UnknownSortField (Where.Reported (List Record)) := do
  let field ← match order with
    | some spec => some <$> (spec.resolve.map fun f => (spec.direction, f))
    | none => pure none
  let (kept, errors) := match clause with
    | some text =>
      if text.isEmpty then (records, [])
      else
        let (q, es) := Where.Query.ofClause text
        let (rs, es') := q.filter contents records
        (rs, es ++ es')
    | none => (records, [])
  match field with
  | some (d, f) => return (sortRecords d f kept, errors)
  | none => return (kept, errors)

end FileQuery
