import FileQuery.Proofs.Selection
import Mathlib.Data.List.Lex

/-! # Records in order

Records are in order when the values of a field go up, or down, and records with equal values stand as
they stood before (`InOrder`). Only one list is (`InOrder.unique`), and sorting gives it
(`inOrder_sortRecords`), so it does not matter whether records are filtered before they are sorted or
after (`filter_sortRecords`). -/
set_option autoImplicit false
namespace FileQuery

/-! ## Values of a field -/

namespace FieldValue

/-- The order of the values of one field: texts go by their code points. -/
inductive Le : FieldValue → FieldValue → Prop
  | text {a b : String} (codes : a.toList.map Char.toNat ≤ b.toList.map Char.toNat) :
      Le (text a) (text b)
  | number {a b : Int} (least : a ≤ b) : Le (number a) (number b)
  | instant {a b : Instant} (earlier : a.micros ≤ b.micros) : Le (instant a) (instant b)

theorem Le.trans {a b c : FieldValue} (first : Le a b) (second : Le b c) : Le a c := by
  cases first with
  | text codes =>
      cases second with
      | text codes' => exact .text (codes.trans codes')
  | number least =>
      cases second with
      | number least' => exact .number (Int.le_trans least least')
  | instant earlier =>
      cases second with
      | instant earlier' => exact .instant (Int.le_trans earlier earlier')

theorem eq_of_codes {a b : String} (same : a.toList.map Char.toNat = b.toList.map Char.toNat) :
    a = b :=
  String.toList_injective (List.map_injective_iff.mpr (fun _ _ => Char.toNat_inj.mp) same)

theorem Le.antisymm {a b : FieldValue} (first : Le a b) (second : Le b a) : a = b := by
  cases first with
  | text codes =>
      cases second with
      | text codes' => rw [eq_of_codes (codes.antisymm codes')]
  | number least =>
      cases second with
      | number least' => rw [Int.le_antisymm least least']
  | @instant i j earlier =>
      cases second with
      | instant earlier' =>
          have same : i.micros = j.micros := Int.le_antisymm earlier earlier'
          obtain ⟨n⟩ := i
          obtain ⟨m⟩ := j
          exact congrArg (fun n => FieldValue.instant ⟨n⟩) same

theorem map_toNat_lt_iff (a : List Char) : ∀ b : List Char,
    a.map Char.toNat < b.map Char.toNat ↔ a < b := by
  induction a with
  | nil => intro b; cases b <;> simp
  | cons c r ih =>
      intro b
      cases b with
      | nil => simp
      | cons d r' =>
          rw [List.map_cons, List.map_cons, List.cons_lt_cons_iff, List.cons_lt_cons_iff, ih,
            Char.toNat_inj]
          exact .rfl

theorem not_decide_lt_iff {a b : String} :
    (!decide (b < a)) = true ↔ a.toList.map Char.toNat ≤ b.toList.map Char.toNat := by
  rw [Bool.not_eq_true', decide_eq_false_iff_not, String.lt_iff, ← map_toNat_lt_iff, not_lt]

theorem le_text {a b : String} : (text a).le (text b) = true ↔ Le (text a) (text b) := by
  rw [le, not_decide_lt_iff]
  exact ⟨.text, fun | .text codes => codes⟩

theorem le_number {a b : Int} : (number a).le (number b) = true ↔ Le (number a) (number b) := by
  rw [le, decide_eq_true_iff]
  exact ⟨.number, fun | .number least => least⟩

theorem le_instant {a b : Instant} : (instant a).le (instant b) = true ↔ Le (instant a) (instant b) := by
  rw [le, decide_eq_true_iff]
  exact ⟨.instant, fun | .instant earlier => earlier⟩

end FieldValue

/-! ## Records -/

section
variable {d : Direction} {f : Field} {rs out : List Record} {a b c : Record}

/-- Whether a record may stand before another, by the values of a field. -/
def Record.Before (d : Direction) (f : Field) (a b : Record) : Prop :=
  match d with
  | .ascending => FieldValue.Le (a.get f) (b.get f)
  | .descending => FieldValue.Le (b.get f) (a.get f)

theorem Record.le_get (f : Field) (a b : Record) :
    (a.get f).le (b.get f) = true ↔ FieldValue.Le (a.get f) (b.get f) := by
  cases f with
  | name => exact FieldValue.le_text
  | path => exact FieldValue.le_text
  | size => exact FieldValue.le_number
  | extension => exact FieldValue.le_text
  | modified => exact FieldValue.le_instant
  | created => exact FieldValue.le_instant
  | permissions => exact FieldValue.le_number

theorem Record.le_get_total (f : Field) (a b : Record) :
    FieldValue.Le (a.get f) (b.get f) ∨ FieldValue.Le (b.get f) (a.get f) := by
  cases f with
  | name => exact (le_total _ _).imp .text .text
  | path => exact (le_total _ _).imp .text .text
  | size => exact (Int.le_total _ _).imp .number .number
  | extension => exact (le_total _ _).imp .text .text
  | modified => exact (Int.le_total _ _).imp .instant .instant
  | created => exact (Int.le_total _ _).imp .instant .instant
  | permissions => exact (Int.le_total _ _).imp .number .number

theorem SortSpec.le_iff : SortSpec.le d f a b = true ↔ Record.Before d f a b := by
  cases d with
  | ascending => exact Record.le_get f a b
  | descending => exact Record.le_get f b a

theorem Record.Before.trans (first : Record.Before d f a b) (second : Record.Before d f b c) :
    Record.Before d f a c := by
  cases d with
  | ascending => exact FieldValue.Le.trans first second
  | descending => exact FieldValue.Le.trans second first

theorem Record.before_total (d : Direction) (f : Field) (a b : Record) :
    Record.Before d f a b ∨ Record.Before d f b a := by
  cases d with
  | ascending => exact a.le_get_total f b
  | descending => exact b.le_get_total f a

theorem Record.Before.antisymm (first : Record.Before d f a b) (second : Record.Before d f b a) :
    a.get f = b.get f := by
  cases d with
  | ascending => exact FieldValue.Le.antisymm first second
  | descending => exact FieldValue.Le.antisymm second first

theorem Record.before_of_get_eq (d : Direction) (same : a.get f = b.get f) : Record.Before d f a b := by
  have self : Record.Before d f a a := (Record.before_total d f a a).elim id id
  cases d with
  | ascending =>
      rw [Record.Before, ← same]
      exact self
  | descending =>
      rw [Record.Before, ← same]
      exact self

/-! ## Lists -/

/-- Records are put in order: the same ones, their values going up or down, and those with one value as
they stood. -/
structure InOrder (d : Direction) (f : Field) (rs out : List Record) : Prop where
  perm : out.Perm rs
  ordered : out.Pairwise (Record.Before d f)
  stable : ∀ v, out.filter (fun r => r.get f = v) = rs.filter (fun r => r.get f = v)

/-- Lists with their values in order agree if their records with each value do. -/
theorem eq_of_ordered {xs : List Record} : ∀ {ys : List Record}, xs.Pairwise (Record.Before d f) →
    ys.Pairwise (Record.Before d f) →
    (∀ v, xs.filter (fun r => r.get f = v) = ys.filter (fun r => r.get f = v)) → xs = ys := by
  induction xs with
  | nil =>
      intro ys _ _ agree
      cases ys with
      | nil => rfl
      | cons y ys => simpa using agree (y.get f)
  | cons x xs ih =>
      intro ys left right agree
      cases ys with
      | nil => simpa using agree (x.get f)
      | cons y ys =>
          rw [List.pairwise_cons] at left right
          -- each head has its value among the other list, so both have the same one
          have inLeft : y ∈ x :: xs := by
            have member : y ∈ (y :: ys).filter (fun r => r.get f = y.get f) := by simp
            rw [← agree] at member
            exact (List.mem_filter.mp member).1
          have inRight : x ∈ y :: ys := by
            have member : x ∈ (x :: xs).filter (fun r => r.get f = x.get f) := by simp
            rw [agree] at member
            exact (List.mem_filter.mp member).1
          have value : x.get f = y.get f := by
            rcases List.mem_cons.mp inLeft with same | later
            · rw [same]
            · rcases List.mem_cons.mp inRight with same | later'
              · rw [same]
              · exact (left.1 y later).antisymm (right.1 x later')
          have heads := agree (x.get f)
          rw [List.filter_cons_of_pos (by simp), List.filter_cons_of_pos (by simp [value]),
            List.cons.injEq] at heads
          obtain ⟨rfl, _⟩ := heads
          rw [ih left.2 right.2 fun v => ?_]
          have both := agree v
          simp only [List.filter_cons] at both
          split at both
          · exact (List.cons.inj both).2
          · exact both

theorem InOrder.unique {out' : List Record} (first : InOrder d f rs out)
    (second : InOrder d f rs out') : out = out' :=
  eq_of_ordered first.ordered second.ordered fun v => (first.stable v).trans (second.stable v).symm

theorem inOrder_sortRecords (d : Direction) (f : Field) (rs : List Record) :
    InOrder d f rs (sortRecords d f rs) := by
  have trans : ∀ a b c : Record, SortSpec.le d f a b = true → SortSpec.le d f b c = true →
      SortSpec.le d f a c = true := by
    intro a b c first second
    rw [SortSpec.le_iff] at first second ⊢
    exact first.trans second
  have total : ∀ a b : Record, (SortSpec.le d f a b || SortSpec.le d f b a) = true := by
    intro a b
    rw [Bool.or_eq_true, SortSpec.le_iff, SortSpec.le_iff]
    exact Record.before_total d f a b
  have perm : (sortRecords d f rs).Perm rs := List.mergeSort_perm rs _
  refine ⟨perm, ?_, fun v => ?_⟩
  · exact (List.pairwise_mergeSort trans total rs).imp SortSpec.le_iff.mp
  · -- records with one value may stand in any order, so sorting keeps theirs
    have alike : (rs.filter fun r => r.get f = v).Pairwise fun a b => SortSpec.le d f a b = true := by
      refine List.pairwise_of_forall_mem_list fun a left b right => SortSpec.le_iff.mpr ?_
      refine Record.before_of_get_eq d ?_
      rw [of_decide_eq_true (List.mem_filter.mp left).2, of_decide_eq_true (List.mem_filter.mp right).2]
    have kept : (rs.filter fun r => r.get f = v).Sublist (sortRecords d f rs) :=
      List.sublist_mergeSort trans total alike List.filter_sublist
    have inner := kept.filter fun r => decide (r.get f = v)
    rw [List.filter_filter] at inner
    simp only [Bool.and_self] at inner
    exact (inner.eq_of_length (perm.filter _).length_eq.symm).symm

theorem filter_sortRecords (d : Direction) (f : Field) (p : Record → Bool) (rs : List Record) :
    (sortRecords d f rs).filter p = sortRecords d f (rs.filter p) := by
  have sorted := inOrder_sortRecords d f rs
  have kept : InOrder d f (rs.filter p) ((sortRecords d f rs).filter p) := by
    refine ⟨sorted.perm.filter p, sorted.ordered.filter p, fun v => ?_⟩
    rw [List.filter_comm, sorted.stable v, List.filter_comm]
  exact kept.unique (inOrder_sortRecords d f (rs.filter p))

end

/-! ## Clauses and orders -/

namespace Where

/-- Whether a record satisfies a clause. A clause without text asks for nothing. -/
def passes (contents : Contents) (clause : Option String) (r : Record) : Bool :=
  match clause with
  | none => true
  | some text => text.isEmpty || ((Query.ofClause text).1.holds contents r).1

theorem fst_reported (contents : Contents) (clause : Option String) (rs : List Record) :
    (reported contents clause rs).1 = rs.filter (passes contents clause) := by
  cases clause with
  | none => exact (List.filter_true rs).symm
  | some text =>
      have same : passes contents (some text) =
          fun r => text.isEmpty || ((Query.ofClause text).1.holds contents r).1 := rfl
      rw [reported, same]
      cases text.isEmpty with
      | true => simp
      | false => simp [Query.filter_eq]

end Where

namespace SortSpec

/-- The name of a field as it is looked up: trimmed, and in lower case. -/
def key (spec : SortSpec) : String := String.ofList (Text.lower (Text.trim spec.field.toList))

/-- What is reported of a field that records do not have. -/
def unknown (spec : SortSpec) : UnknownSortField := ⟨spec.field⟩

theorem resolve_eq_ok_iff {spec : SortSpec} {f : Field} :
    spec.resolve = .ok f ↔ f.label = spec.key := by
  have distinct : ∀ f ∈ Field.all, ∀ g ∈ Field.all, f.label = g.label → f = g := by decide
  have listed : ∀ f, f ∈ Field.all := fun f => by cases f <;> decide
  have looked : Field.ofName? spec.field = Field.all.find? fun g => g.label == spec.key := rfl
  rw [resolve, looked]
  cases found : Field.all.find? fun g => g.label == spec.key with
  | none =>
      rw [List.find?_eq_none] at found
      have absent := found f (listed f)
      rw [beq_iff_eq] at absent
      simpa using absent
  | some g =>
      have own : g.label = spec.key := by simpa using List.find?_some found
      rw [Except.ok.injEq, ← own]
      exact ⟨fun same => by rw [same], fun same => distinct g (listed g) f (listed f) same.symm⟩

theorem resolve_of_not_mem {spec : SortSpec} (absent : spec.key ∉ Field.labels) :
    spec.resolve = .error spec.unknown := by
  cases field : spec.resolve with
  | ok f =>
      refine absurd (List.mem_map.mpr ⟨f, ?_, resolve_eq_ok_iff.mp field⟩) absent
      cases f <;> decide
  | error e =>
      rw [resolve] at field
      split at field
      · cases field
      · cases field
        rfl

end SortSpec

end FileQuery
