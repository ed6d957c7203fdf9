import FileQuery.Proofs.Execution.Action
import FileQuery.Proofs.Selection.Order
import FileQuery.Execution.Folder

/-! # Records that are filtered and put in order

A selection keeps the records that satisfy its clause and puts them in the one order that its field and
direction ask for; a field that records do not have is refused with nothing reported before
(`selection_in_order`). -/
set_option autoImplicit false
namespace FileQuery

namespace Action

variable {settings : Settings} {source : Source} {order : Option SortSpec} {records : List Record}

theorem on_selected_of_unknown {e : UnknownSortField} {r : Run}
    (refused : select (contents settings r.store) source.clause order records = .error e) :
    (selected settings source order records).on r = 
      (.error (.command (.unknownSortField e (e.suggestion settings.matcher))), r) := by
  rw [selected, on_bind, on_get]
  dsimp only
  rw [refused]
  exact on_refuse _

end Action

/-- What is selected are the records that satisfy the clause, as they stood or in the order that is
asked for. Sorting all records before the clause is looked at selects the same, and a field that
records do not have is refused before any condition is reported. -/
theorem selection_in_order (contents : Where.Contents) (clause : Option String)
    (order : Option SortSpec) (records : List Record) :
    match order with
    | none => ∃ errors,
        select contents clause none records =
          .ok (records.filter (Where.passes contents clause), errors)
    | some spec =>
      if spec.key ∈ Field.labels then
        ∃ f kept errors, f.label = spec.key ∧
          select contents clause (some spec) records = .ok (kept, errors) ∧
          (∀ out, out = kept ↔
            InOrder spec.direction f (records.filter (Where.passes contents clause)) out) ∧
          ∃ sorted errors',
            select contents none (some spec) records = .ok (sorted, []) ∧
            select contents clause none sorted = .ok (kept, errors')
      else
        select contents clause (some spec) records = .error spec.unknown ∧
        ∀ (settings : Settings) (folder : Option String) (r : Run),
          (Action.selected settings ⟨folder, clause⟩ (some spec) records).on r =
            (.error (.command (.unknownSortField spec.unknown
              (spec.unknown.suggestion settings.matcher))), r) := by
  cases order with
  | none =>
      refine ⟨(Where.reported contents clause records).2, ?_⟩
      rw [select_none, ← Where.fst_reported]
  | some spec =>
      dsimp only
      split
      · next known =>
          obtain ⟨f, _, label⟩ := List.mem_map.mp known
          have field := SortSpec.resolve_eq_ok_iff.mpr label
          have selected : select contents clause (some spec) records =
              .ok (sortRecords spec.direction f (records.filter (Where.passes contents clause)),
                (Where.reported contents clause records).2) := by
            rw [select_some, field, ← Where.fst_reported]
          have sorted : select contents none (some spec) records =
              .ok (sortRecords spec.direction f records, []) := by
            rw [select_some, field]
            rfl
          have filtered : select contents clause none (sortRecords spec.direction f records) =
              .ok (sortRecords spec.direction f (records.filter (Where.passes contents clause)),
                (Where.reported contents clause (sortRecords spec.direction f records)).2) := by
            rw [select_none, ← filter_sortRecords, ← Where.fst_reported]
          refine ⟨f, _, _, label, selected, fun out => ⟨?_, fun ordered => ?_⟩, _, _, sorted, filtered⟩
          · rintro rfl
            exact inOrder_sortRecords _ _ _
          · exact ordered.unique (inOrder_sortRecords _ _ _)
      · next absent =>
          have refused (contents : Where.Contents) :
              select contents clause (some spec) records = .error spec.unknown := by
            rw [select_some, SortSpec.resolve_of_not_mem absent]
          exact ⟨refused contents, fun settings folder r => Action.on_selected_of_unknown (refused _)⟩

end FileQuery
