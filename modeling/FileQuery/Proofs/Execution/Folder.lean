import FileQuery.Execution.Folder
import FileQuery.Proofs.Execution.Single
import FileQuery.Proofs.Selection

/-! When statements about all entries of a folder stray, with the default settings. They do where the
folder cannot be listed. The entries were looked at before, so their own paths have no NUL; only where
they go to, or where a report goes to, can have one. -/
set_option autoImplicit false
namespace FileQuery

open Store (Stray hasNul)

/-- The folder that a statement about many entries looks into, if it is there. -/
def Source.folderIn? (source : Source) (session : Session) (s : Store) : Option String :=
  match source.folder with
  | some folder =>
    if folder.isEmpty then some session.folder
    else if s.isFolder (session.resolve [folder]) then some (session.resolve [folder])
    else none
  | none => some session.folder

/-- The records that a statement about many entries keeps, unless it is refused. -/
def Source.kept? (source : Source) (session : Session) (s : Store) (kind : Kind)
    (order : Option SortSpec) : Option (List Record) :=
  match source.folderIn? session s with
  | none => none
  | some folder =>
    match listFolder s folder (some kind) with
    | .error _ => none
    | .ok (records, _) =>
      match select (Action.contents {} s) source.clause order records with
      | .error _ => none
      | .ok (kept, _) => some kept

/-- Whether the folder that a statement about many entries looks into cannot be listed. -/
def Source.Unlistable (source : Source) (session : Session) (s : Store) : Prop :=
  ∃ folder, source.folderIn? session s = some folder ∧ s.Unlistable folder

section
variable {source : Source} {session : Session} {s : Store} {kind : Kind} {order : Option SortSpec}
  {kept : List Record} {r : Record}

theorem Source.listed_of_kept (done : source.kept? session s kind order = some kept)
    (member : r ∈ kept) : ∃ folder records notes,
      listFolder s folder (some kind) = .ok (records, notes) ∧ r ∈ records := by
  rw [kept?] at done
  split at done
  · cases done
  · split at done
    · cases done
    · next listed =>
        split at done
        · cases done
        · next selected =>
            cases done
            exact ⟨_, _, _, listed, mem_of_mem_select selected member⟩

theorem Source.plain_of_kept (done : source.kept? session s kind order = some kept)
    (member : r ∈ kept) : hasNul r.path = false := by
  obtain ⟨folder, records, notes, listed, member'⟩ := listed_of_kept done member
  exact plain_of_mem_listFolder listed member'

end

namespace Action

variable {r : Run}

theorem strays_list (kind : Option Kind) :
    (list kind).Strays r ↔ r.store.Unlistable r.session.folder := by
  unfold list
  rw [strays_next on_get, strays_listing]
  refine or_iff_left ?_
  rintro ⟨records, notes, _, strays⟩
  revert strays
  split
  · simp only
    rw [strays_next (on_emit _ _ _)]
    exact not_strays_modify _
  · rw [strays_next (on_emit _ _ _)]
    exact not_strays_modify _

theorem strays_count (kind : Option Kind) :
    (count kind).Strays r ↔ r.store.Unlistable r.session.folder := by
  unfold count
  rw [strays_next on_get, strays_listing]
  refine or_iff_left ?_
  rintro ⟨records, notes, _, strays⟩
  exact not_strays_emit _ _ _ strays

theorem on_sourceRecords (kind : Kind) (source : Source) :
    (sourceRecords kind source).on r =
      match source.folderIn? r.session r.store with
      | some folder => (listing folder (some kind)).on r
      | none => (.error (.command (.pathNotFound (source.folder.getD "") none)), r) := by
  rw [sourceRecords, Source.folderIn?]
  cases source.folder with
  | none => rfl
  | some folder =>
      simp only
      split
      · rfl
      · simp only [on_bind, on_resolve, on_get]
        split <;> rfl

theorem on_warnings (matcher : Matcher) (errors : List Where.ConditionError) :
    ∀ r : Run, ∃ r', (errors.forM fun e => emit .warning (e.message matcher)).on r = (.ok (), r') ∧
      r'.store = r.store ∧ r'.session = r.session := by
  induction errors with
  | nil => exact fun r => ⟨r, rfl, rfl, rfl⟩
  | cons e rest ih =>
      intro r
      obtain ⟨r', done, store, session⟩ := ih (r.reported .warning (e.message matcher) none)
      exact ⟨r', done, store, session⟩

theorem on_kept (kind : Kind) (source : Source) (order : Option SortSpec) :
    match source.kept? r.session r.store kind order with
    | some kept => ¬ source.Unlistable r.session r.store ∧
      ∃ r', (sourceRecords kind source >>= selected {} source order).on r = (.ok kept, r') ∧
        r'.store = r.store ∧ r'.session = r.session
    | none => ∃ f r', (sourceRecords kind source >>= selected {} source order).on r =
        (.error f, r') ∧ (f.Stray ↔ source.Unlistable r.session r.store) := by
  rw [on_bind, on_sourceRecords, Source.kept?]
  simp only [Source.Unlistable]
  cases source.folderIn? r.session r.store with
  | none => exact ⟨_, _, rfl, iff_of_false id (by simp)⟩
  | some folder =>
      simp only [on_listing, Option.some.injEq, exists_eq_left']
      have whole := listed r.store folder (some kind)
      generalize listFolder r.store folder (some kind) = outcome at whole
      cases whole with
      | missing refused =>
          refine ⟨_, _, rfl, iff_of_false id ?_⟩
          rintro ⟨names, named, -⟩
          rw [refused] at named
          cases named
      | halted unlistable stray => exact ⟨_, _, rfl, iff_of_true stray unlistable⟩
      | @done names named dated =>
          have listable : ¬ r.store.Unlistable folder := by
            rintro ⟨names', named', name, member, dateless⟩
            rw [named] at named'
            cases named'
            exact dated name member dateless
          simp only [selected, on_bind, on_get]
          rcases select (contents {} r.store) source.clause order
            (Record.ofKind (some kind) (recordsAt r.store folder names)) with e | ⟨kept, errors⟩
          · exact ⟨_, _, rfl, iff_of_false id listable⟩
          · obtain ⟨r', warned, store, session⟩ := on_warnings ({} : Settings).matcher errors
              { r with log := r.log ++ skippedAt r.store folder names }
            refine ⟨listable, r', ?_, store, session⟩
            simp only [on_bind, warned, on_pure]

/-- Work on the records that are kept strays where the folder cannot be listed, or where it does on
them. -/
theorem strays_kept {kind : Kind} {source : Source} {order : Option SortSpec} {P : List Record → Prop}
    {work : List Record → Action Unit}
    (onKept : ∀ kept r', source.kept? r.session r.store kind order = some kept →
      r'.store = r.store → r'.session = r.session → ((work kept).Strays r' ↔ P kept)) :
    (sourceRecords kind source >>= fun records => selected {} source order records >>= work).Strays r ↔
      source.Unlistable r.session r.store ∨
        ∃ kept, source.kept? r.session r.store kind order = some kept ∧ P kept := by
  rw [← bind_assoc]
  have begun := on_kept (r := r) kind source order
  cases found : source.kept? r.session r.store kind order with
  | none =>
      rw [found] at begun
      obtain ⟨f, r', refused, stray⟩ := begun
      simp only [Strays, on_bind, refused, Except.error.injEq, exists_eq_left', stray]
      simp
  | some kept =>
      rw [found] at begun
      obtain ⟨listable, r', done, store, session⟩ := begun
      rw [strays_next done, onKept kept r' found store session]
      simp [listable]

/-! Batches. -/

def recordTurn (report : Record → String → String) (done work : Record → Action Unit)
    (record : Record) : Action Unit := do
  let failed ← tryCatch (do work record; return none) fun f =>
    match f with
    | .store e => if e.isRefusal then return some e.message else throw f
    | f => throw f
  match failed with
  | some cause => emit .error (report record cause) (some record.name)
  | none => done record

theorem forRecords_eq (report : Record → String → String) (done work : Record → Action Unit)
    (records : List Record) :
    forRecords report done work records = records.forM (recordTurn report done work) := rfl

theorem on_recordTurn {report : Record → String → String} {done work : Record → Action Unit}
    {record : Record} :
    (recordTurn report done work record).on r =
      match (work record).on r with
      | (.ok _, r') => (done record).on r'
      | (.error (.store e), r') =>
        if e.isRefusal then (emit .error (report record e.message) (some record.name)).on r'
        else (.error (.store e), r')
      | (.error f, r') => (.error f, r') := by
  simp only [recordTurn, on_bind, on_tryCatch]
  rcases (work record).on r with ⟨f | _, r'⟩
  · cases f with
    | store e =>
        dsimp only
        cases e.isRefusal <;> rfl
    | _ => rfl
  · rfl

theorem strays_recordTurn {report : Record → String → String} {done work : Record → Action Unit}
    {record : Record} (calm : ∀ r', ¬ (done record).Strays r') :
    (recordTurn report done work record).Strays r ↔ (work record).Strays r := by
  simp only [Strays, on_recordTurn]
  rcases (work record).on r with ⟨f | _, r'⟩
  · cases f with
    | store e =>
        dsimp only
        split
        · next refusal =>
            refine iff_of_false ?_ (by simp [Fault.Stray, Store.isReadable_of_isRefusal refusal])
            simp
        · rfl
    | _ => rfl
  · simpa [Strays] using calm r'

/-- Changes for some records stray where one of them does in its turn, if the store refuses whatever
else stops them. -/
theorem strays_forRecords {report : Record → String → String} {said : Record → String}
    {work : Record → Action Unit} {c : Session → Record → Store.Change} (does : Does work c)
    {records : List Record}
    (refusable : ∀ record ∈ records, ∀ s, ¬ Stray (c r.session record s).1 →
      Store.Refusable (c r.session record s).1) :
    (forRecords report (fun record => emit .success (said record) (some record.name)) work
        records).Strays r ↔
      MetInTurn (fun record s => Stray (c r.session record s).1)
        (fun record s => (c r.session record s).2) records r.store := by
  rw [forRecords_eq]
  refine strays_forM (fun r' => r'.store) (fun r' => r'.session = r.session) ?_ ?_ r rfl
  · intro record member r' known
    rw [strays_recordTurn (by simp), does.strays, known]
  · intro record member r' known calm
    obtain ⟨r'', done, session, store⟩ := does record r'
    rw [known] at done session store
    have refused := refusable record member r'.store calm
    rw [on_recordTurn, done]
    cases changed : (c r.session record r'.store).1 with
    | ok _ => exact ⟨_, rfl, session, store⟩
    | error f =>
        simp only [mapError_error, refused f changed, if_true, on_emit]
        exact ⟨_, rfl, session, store⟩

theorem strays_deleteAll (kind : Kind) (source : Source) :
    (deleteAll kind source {}).Strays r ↔
      source.Unlistable r.session r.store ∨
        ∃ kept, source.kept? r.session r.store kind none = some kept ∧
          MetInTurn (fun record s => record.kind = .folder ∧ s.TooHigh record.path)
            (fun record s => (removal record.kind record.path s).2) kept r.store := by
  refine strays_kept fun kept r' found store session => ?_
  have does : Does (fun record : Record =>
      change (if record.isFolder then Store.removeTree record.path else Store.removeFile record.path))
      fun _ record => removal record.kind record.path := by
    intro record r
    have same : removal record.kind record.path =
        if record.isFolder then Store.removeTree record.path else Store.removeFile record.path := by
      cases sort : record.kind <;> simp [Record.isFolder, sort, removal]
    rw [on_change, ← same]
    exact ⟨_, rfl, rfl, rfl⟩
  rw [strays_forRecords does, store]
  · refine metInTurn_congr fun record member s => ?_
    exact stray_removal (Source.plain_of_kept found member)
  · intro record member s calm
    rw [stray_removal (Source.plain_of_kept found member)] at calm
    exact refusable_removal (Source.plain_of_kept found member) calm

theorem strays_deleteAll_file (source : Source) :
    (deleteAll .file source {}).Strays r ↔ source.Unlistable r.session r.store := by
  rw [strays_deleteAll]
  refine or_iff_left ?_
  rintro ⟨kept, found, met⟩
  refine not_metInTurn (fun record member s => ?_) r.store met
  obtain ⟨folder, records, notes, listed, member'⟩ := Source.listed_of_kept found member
  simp [kind_of_mem_listFolder listed member']

theorem strays_transferAll (mode : Transfer) (kind : Kind) (target : String) (source : Source) :
    (transferAll mode kind target source {}).Strays r ↔
      source.Unlistable r.session r.store ∨
        ∃ kept, source.kept? r.session r.store kind none = some kept ∧
          MetInTurn (fun record s => TransferStops mode record.kind record.path
              (r.session.resolve [target, record.name]) s)
            (fun record s => (transferChange mode record.kind record.path
              (r.session.resolve [target, record.name]) s).2) kept r.store := by
  refine strays_kept fun kept r' found store session => ?_
  have does : Does (fun record : Record => do
      change (transferChange mode record.kind record.path (← resolve [target, record.name])))
      fun session record => transferChange mode record.kind record.path
        (session.resolve [target, record.name]) := by
    intro record r
    rw [on_bind, on_resolve]
    dsimp only
    rw [on_change]
    exact ⟨_, rfl, rfl, rfl⟩
  refine (strays_forRecords does ?_).trans ?_
  · intro record member s calm
    rw [stray_transferChange (Source.plain_of_kept found member)] at calm
    exact refusable_transferChange (Source.plain_of_kept found member) calm
  · rw [store, session]
    exact metInTurn_congr fun record member s =>
      stray_transferChange (Source.plain_of_kept found member) mode record.kind s

theorem render_default (path : String) (records : List Record) :
    ∃ text, Report.render {} path records = .ok text := by
  rw [Report.render]
  cases Report.Format.ofPath path with
  | json => exact ⟨_, rfl⟩
  | csv => exact ⟨_, rfl⟩
  | lines => exact ⟨_, rfl⟩

theorem strays_selectRecords (kind : Kind) (source : Source) (order : Option SortSpec)
    (into : Option String) :
    (selectRecords kind source order into {}).Strays r ↔
      source.Unlistable r.session r.store ∨
        ∃ kept, source.kept? r.session r.store kind order = some kept ∧
          ∃ path, into = some path ∧
            (hasNul (r.session.resolve [path]) = true ∨
              (r.store.target (r.session.resolve [path])).isOk = true ∧
                ∃ text, Report.render {} path kept = .ok text ∧
                  ∃ c ∈ text.toList, c ∈ r.store.undecoded) := by
  refine strays_kept fun kept r' found store session => ?_
  cases into with
  | none =>
      refine iff_of_false ?_ (by simp)
      simp only
      rw [strays_next (on_modify _)]
      exact not_strays_emit _ _ _
  | some path =>
      simp only
      rw [strays_next (on_pure _)]
      obtain ⟨text, rendered⟩ := render_default path kept
      simp only [rendered]
      rw [strays_next (on_resolve _), strays_next on_get, strays_change_bind (by simp), store, session]
      refine Store.stray_writeText.trans ?_
      rw [Store.surrogate_pointsOf]
      simp [rendered]

end Action

end FileQuery
