import FileQuery.Listing
import FileQuery.Proofs.Store.Fault
import FileQuery.Selection

/-! What records a statement about many entries works on: entries that were looked at in the store,
some of them kept by a clause. -/
set_option autoImplicit false
namespace FileQuery

section Records
variable {s : Store} {path folder : String} {r : Record}

theorem of_recordAt_eq_ok (found : recordAt s path = .ok r) :
    ∃ place e kind status, s.stat true path = .ok (place, e) ∧
      s.status? place e = some (kind, status) ∧ Record.ofStat path kind status = .ok r := by
  rw [recordAt] at found
  rcases ends : s.stat true path with f | ⟨place, e⟩
  · rw [ends] at found
    cases found
  · rw [ends] at found
    rcases told : s.status? place e with _ | ⟨kind, status⟩
    · simp only [bind, Except.bind, told] at found
      cases found
    · simp only [bind, Except.bind, told] at found
      rcases made : Record.ofStat path kind status with e' | r'
      · rw [made] at found
        cases found
      · rw [made] at found
        cases found
        exact ⟨place, e, kind, status, rfl, told, made⟩

theorem recordAt_of_status {place : Place} {e : Entry} {kind : Kind} {status : Stat}
    (ends : s.stat true path = .ok (place, e)) (told : s.status? place e = some (kind, status)) :
    recordAt s path = (Record.ofStat path kind status).mapError .ofStamp := by
  simp only [recordAt, ends, bind, Except.bind, told]

theorem of_ofStat {kind : Kind} {status : Stat} (made : Record.ofStat path kind status = .ok r) :
    ∃ modified created, status.modified.instant = .ok modified ∧
      (status.born.getD status.changed).instant = .ok created ∧
      r = Record.ofEntry path kind status.size status.mode modified created := by
  rw [Record.ofStat] at made
  cases modified : status.modified.instant with
  | error e =>
      rw [modified] at made
      cases made
  | ok i =>
      rw [modified] at made
      cases created : (status.born.getD status.changed).instant with
      | error e =>
          rw [created] at made
          cases made
      | ok j =>
          rw [created] at made
          cases made
          exact ⟨i, j, rfl, rfl, rfl⟩

theorem plain_of_recordAt (found : recordAt s path = .ok r) : Store.hasNul r.path = false := by
  obtain ⟨place, e, kind, status, ends, -, made⟩ := of_recordAt_eq_ok found
  obtain ⟨modified, created, -, -, rfl⟩ := of_ofStat made
  exact Store.plain_of_stat ends

theorem isReadable_of_recordAt {f : Store.Fault} (stopped : recordAt s path = .error f) :
    f.isReadable = f.isRefusal := by
  rw [recordAt] at stopped
  rcases ends : s.stat true path with g | ⟨place, e⟩
  · rw [ends] at stopped
    cases stopped
    cases nul : Store.hasNul path with
    | true =>
        rw [Store.stat_of_hasNul nul] at ends
        cases ends
        rfl
    | false =>
        have refusal := Store.refusable_stat nul s true f ends
        rw [refusal, Store.isReadable_of_isRefusal refusal]
  · rw [ends] at stopped
    rcases told : s.status? place e with _ | ⟨kind, status⟩
    · simp only [bind, Except.bind, told] at stopped
      cases stopped
      rfl
    · simp only [bind, Except.bind, told] at stopped
      rcases made : Record.ofStat path kind status with e' | r'
      · rw [made] at stopped
        cases stopped
        cases e' <;> rfl
      · rw [made] at stopped
        cases stopped

/-! Listings. -/

def recordsAt (s : Store) (folder : String) (names : List String) : List Record :=
  names.filterMap fun name => (recordAt s (Store.joinName folder name)).toOption

def skippedAt (s : Store) (folder : String) (names : List String) : List LogEntry :=
  names.filterMap fun name =>
    match recordAt s (Store.joinName folder name) with
    | .ok _ => none
    | .error f => some (skipped name f)

namespace Store

/-- Whether a name in a folder has no record, though the store does not refuse to look at it: a time of
the entry is no date. -/
def Dateless (s : Store) (folder name : String) : Prop :=
  ∃ f, recordAt s (joinName folder name) = .error f ∧ f.isRefusal = false

instance (s : Store) (folder name : String) : Decidable (s.Dateless folder name) :=
  match found : recordAt s (joinName folder name) with
  | .ok _ => isFalse fun ⟨_, stopped, _⟩ => by
    rw [found] at stopped
    cases stopped
  | .error f => decidable_of_iff (f.isRefusal = false)
    ⟨fun stray => ⟨f, found, stray⟩, fun ⟨_, stopped, stray⟩ => by
      rw [found] at stopped
      cases stopped
      exact stray⟩

/-- Whether one of the names in a folder stops its listing. -/
def Unlistable (s : Store) (folder : String) : Prop :=
  ∃ names, s.namesAt folder = .ok names ∧ ∃ name ∈ names, s.Dateless folder name

end Store

theorem recordsOf_cons (name : String) (rest : List String) :
    recordsOf s folder (name :: rest) =
      match recordAt s (Store.joinName folder name) with
      | .ok r => (recordsOf s folder rest).map fun (records, notes) => (r :: records, notes)
      | .error f =>
        if f.isRefusal then
          match recordsOf s folder rest with
          | .ok (records, notes) => .ok (records, skipped name f :: notes)
          | .error u => .error { u with notes := skipped name f :: u.notes }
        else .error { fault := .store f } := rfl

theorem recordsOf_eq_ok {names : List String} (dated : ∀ name ∈ names, ¬ s.Dateless folder name) :
    recordsOf s folder names = .ok (recordsAt s folder names, skippedAt s folder names) := by
  induction names with
  | nil => rfl
  | cons name rest ih =>
      obtain ⟨own, others⟩ := List.forall_mem_cons.mp dated
      rw [recordsOf_cons, ih others]
      cases found : recordAt s (Store.joinName folder name) with
      | ok r => simp [recordsAt, skippedAt, found, Except.map, Except.toOption]
      | error f =>
          cases refusal : f.isRefusal with
          | true => simp [recordsAt, skippedAt, found, refusal, Except.toOption]
          | false => exact absurd ⟨f, found, refusal⟩ own

theorem recordsOf_eq_error {names : List String} (halts : ∃ name ∈ names, s.Dateless folder name) :
    ∃ f notes, recordsOf s folder names = .error { fault := .store f, notes } ∧
      f.isReadable = false := by
  induction names with
  | nil =>
      obtain ⟨name, none, -⟩ := halts
      cases none
  | cons name rest ih =>
      rw [recordsOf_cons]
      cases found : recordAt s (Store.joinName folder name) with
      | ok r =>
          obtain ⟨f, notes, stopped, stray⟩ := ih (by simpa [Store.Dateless, found] using halts)
          exact ⟨f, notes, by rw [stopped]; rfl, stray⟩
      | error f =>
          have same := isReadable_of_recordAt found
          cases refusal : f.isRefusal with
          | true =>
              obtain ⟨g, notes, stopped, stray⟩ := ih (by
                simpa [Store.Dateless, found, refusal] using halts)
              exact ⟨g, skipped name f :: notes, by simp only [stopped, refusal, if_true], stray⟩
          | false => exact ⟨f, [], by simp [refusal], same.trans refusal⟩

def Record.ofKind : Option Kind → List Record → List Record
  | none, records => records
  | some kind, records => records.filter fun r => r.kind = kind

theorem Record.filter_kind (kind : Option Kind) (records : List Record) :
    records.filter (fun r => kind.isNone || kind == some r.kind) = Record.ofKind kind records := by
  cases kind with
  | none => simp [Record.ofKind]
  | some kind =>
      have same (r : Record) : ((some kind).isNone || some kind == some r.kind) =
          decide (r.kind = kind) := by
        rw [Option.isNone_some, Bool.false_or, Bool.eq_iff_iff, beq_iff_eq, decide_eq_true_iff,
          Option.some.injEq]
        exact eq_comm
      simp only [Record.ofKind, same]

inductive Listed (s : Store) (folder : String) (kind : Option Kind) :
    Except Unlisted (List Record × List LogEntry) → Prop
  | missing {f : Store.Fault} (refused : s.namesAt folder = .error f) :
      Listed s folder kind (.error { fault := .command (.pathNotFound folder none) })
  | halted {f : Store.Fault} {notes : List LogEntry} (unlistable : s.Unlistable folder)
      (stray : f.isReadable = false) : Listed s folder kind (.error { fault := .store f, notes })
  | done {names : List String} (named : s.namesAt folder = .ok names)
      (dated : ∀ name ∈ names, ¬ s.Dateless folder name) :
      Listed s folder kind
        (.ok (Record.ofKind kind (recordsAt s folder names), skippedAt s folder names))

theorem listed (s : Store) (folder : String) (kind : Option Kind) :
    Listed s folder kind (listFolder s folder kind) := by
  rw [listFolder]
  cases named : s.namesAt folder with
  | error f => exact .missing named
  | ok names =>
      dsimp only
      by_cases halts : ∃ name ∈ names, s.Dateless folder name
      · obtain ⟨f, notes, stopped, stray⟩ := recordsOf_eq_error halts
        rw [stopped]
        exact .halted ⟨names, named, halts⟩ stray
      · have dated : ∀ name ∈ names, ¬ s.Dateless folder name := fun name member dateless =>
          halts ⟨name, member, dateless⟩
        rw [recordsOf_eq_ok dated]
        dsimp only [Except.map]
        rw [Record.filter_kind]
        exact .done named dated

theorem mem_recordsAt {names : List String} :
    r ∈ recordsAt s folder names ↔
      ∃ name ∈ names, recordAt s (Store.joinName folder name) = .ok r := by
  rw [recordsAt, List.mem_filterMap]
  refine exists_congr fun name => and_congr_right fun _ => ?_
  cases recordAt s (Store.joinName folder name) <;> simp [Except.toOption]

theorem mem_of_mem_ofKind {kind : Option Kind} {records : List Record}
    (member : r ∈ Record.ofKind kind records) : r ∈ records := by
  cases kind with
  | none => exact member
  | some kind => exact (List.mem_filter.mp member).1

theorem kind_of_mem_listFolder {kind : Kind} {records : List Record} {notes : List LogEntry}
    (found : listFolder s folder (some kind) = .ok (records, notes)) (member : r ∈ records) :
    r.kind = kind := by
  have whole := listed s folder (some kind)
  rw [found] at whole
  cases whole with
  | done named dated => exact of_decide_eq_true (List.mem_filter.mp member).2

theorem plain_of_mem_listFolder {kind : Option Kind} {records : List Record}
    {notes : List LogEntry} (found : listFolder s folder kind = .ok (records, notes))
    (member : r ∈ records) : Store.hasNul r.path = false := by
  have whole := listed s folder kind
  rw [found] at whole
  cases whole with
  | done named dated =>
      obtain ⟨name, -, found⟩ := mem_recordsAt.mp (mem_of_mem_ofKind member)
      exact plain_of_recordAt found

end Records

/-- A query keeps the records that pass in their order, and reports what each record does in turn. -/
theorem Where.Query.filter_eq (q : Where.Query) (contents : Where.Contents) (records : List Record) :
    q.filter contents records = (records.filter fun r => (q.holds contents r).1,
      records.flatMap fun r => (q.holds contents r).2) := by
  induction records with
  | nil => rfl
  | cons r rs ih => rw [filter, ih, List.filter_cons, List.flatMap_cons]

theorem mem_of_mem_filter {q : Where.Query} {contents : Where.Contents} {r : Record}
    {records : List Record} (member : r ∈ (q.filter contents records).1) : r ∈ records := by
  rw [Where.Query.filter_eq] at member
  exact (List.mem_filter.mp member).1

/-- The records that a clause keeps, if there is one with any text, in their order. -/
def Where.reported (contents : Where.Contents) (clause : Option String) (records : List Record) :
    Where.Reported (List Record) :=
  match clause with
  | some text =>
    if text.isEmpty then (records, [])
    else
      let (q, es) := Where.Query.ofClause text
      let (rs, es') := q.filter contents records
      (rs, es ++ es')
  | none => (records, [])

theorem Where.mem_of_mem_reported {contents : Where.Contents} {clause : Option String}
    {records : List Record} {r : Record}
    (member : r ∈ (Where.reported contents clause records).1) : r ∈ records := by
  cases clause with
  | none => exact member
  | some text =>
      unfold Where.reported at member
      dsimp only at member
      split at member
      · exact member
      · generalize Where.Query.ofClause text = query at member
        exact mem_of_mem_filter member

theorem Where.reported_of_empty {contents : Where.Contents} {clause : Option String}
    (empty : ∀ text, clause = some text → text = "") (records : List Record) :
    Where.reported contents clause records = (records, []) := by
  cases clause with
  | none => rfl
  | some text =>
      obtain rfl : text = "" := empty text rfl
      rfl

/-- Puts what a clause keeps in order, if an order is given. -/
def arranged (kept : Where.Reported (List Record)) :
    Option (Direction × Field) → Except UnknownSortField (Where.Reported (List Record))
  | some (d, f) => .ok (sortRecords d f kept.1, kept.2)
  | none => .ok kept

theorem select_none (contents : Where.Contents) (clause : Option String) (records : List Record) :
    select contents clause none records = .ok (Where.reported contents clause records) := rfl

theorem select_some (contents : Where.Contents) (clause : Option String) (spec : SortSpec)
    (records : List Record) :
    select contents clause (some spec) records =
      match spec.resolve with
      | .ok f => .ok (sortRecords spec.direction f (Where.reported contents clause records).1,
        (Where.reported contents clause records).2)
      | .error e => .error e := by
  have split : select contents clause (some spec) records =
      (some <$> (spec.resolve.map fun f => (spec.direction, f))) >>=
        arranged (Where.reported contents clause records) := by
    unfold select
    rfl
  rw [split]
  generalize Where.reported contents clause records = reported
  cases spec.resolve <;> rfl

theorem mem_of_mem_select {contents : Where.Contents} {clause : Option String}
    {order : Option SortSpec} {records kept : List Record} {errors : List Where.ConditionError}
    {r : Record} (selected : select contents clause order records = .ok (kept, errors))
    (member : r ∈ kept) : r ∈ records := by
  have passed : r ∈ (Where.reported contents clause records).1 → r ∈ records :=
    Where.mem_of_mem_reported
  cases order with
  | none =>
      rw [select_none, Except.ok.injEq] at selected
      rw [selected] at passed
      exact passed member
  | some spec =>
      rw [select_some] at selected
      generalize Where.reported contents clause records = reported at selected passed
      cases field : spec.resolve with
      | error e =>
          rw [field] at selected
          cases selected
      | ok f =>
          rw [field] at selected
          cases selected
          exact passed (List.mem_mergeSort.mp member)

end FileQuery
