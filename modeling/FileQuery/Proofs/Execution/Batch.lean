import FileQuery.Proofs.Execution.Listing
import FileQuery.Proofs.Execution.Returned
import FileQuery.Proofs.Execution.Selected
import FileQuery.Proofs.Execution.Aborted

/-! Statements that change every entry that a clause keeps. They select what a query with the same
folder and clause shows, before anything is changed, and then make one change for each record in
turn, each with one event. -/
set_option autoImplicit false
namespace FileQuery

open Store (hasNul)

/-- A change for every entry that a clause keeps. -/
inductive Batch where
  | delete
  | transfer (mode : Transfer) (target : String)

namespace Batch

def statement (kind : Kind) (source : Source) : Batch → Statement
  | delete => .deleteAll kind source
  | transfer mode target => .transferAll mode kind target source

def change (session : Session) (record : Record) : Batch → Store.Change
  | delete =>
    if record.isFolder then Store.removeTree record.path else Store.removeFile record.path
  | transfer mode target =>
    Action.transferChange mode record.kind record.path (session.resolve [target, record.name])

def success (kind : Kind) (record : Record) : Batch → String
  | delete => kind.label ++ " \"" ++ record.name ++ "\" deleted."
  | transfer mode target =>
    kind.label ++ " \"" ++ record.name ++ "\" " ++ mode.done ++ " to \"" ++ target ++ "\"."

def failure (kind : Kind) (record : Record) (cause : String) : Batch → String
  | delete => "Error deleting " ++ kind.noun ++ " \"" ++ record.name ++ "\": " ++ cause
  | transfer mode _ =>
    "Error: " ++ kind.noun ++ " \"" ++ record.name ++ "\" not " ++ mode.done ++ ": " ++ cause

/-- The store after the changes for some records, one after the other. -/
def after (b : Batch) (session : Session) : List Record → Store → Store
  | [], s => s
  | record :: rest, s => after b session rest (b.change session record s).2

/-- What each change gives in the store that those before it leave. -/
def results (b : Batch) (session : Session) : List Record → Store →
    List (Record × Except Store.Fault Unit)
  | [], _ => []
  | record :: rest, s =>
    (record, (b.change session record s).1) :: results b session rest (b.change session record s).2

def work (record : Record) : Batch → Action Unit
  | delete => Action.change
      (if record.isFolder then Store.removeTree record.path else Store.removeFile record.path)
  | transfer mode target => do
      Action.change (Action.transferChange mode record.kind record.path
        (← Action.resolve [target, record.name]))

/-- The work on one record, and the event that tells of it. -/
def turn (b : Batch) (kind : Kind) (record : Record) : Action Unit :=
  Action.recordTurn (fun record cause => b.failure kind record cause)
    (fun record => Action.emit .success (b.success kind record) (some record.name))
    (fun record => b.work record) record

variable {b : Batch} {kind : Kind} {session : Session} {record : Record} {r : Run}

theorem perform_eq (b : Batch) (settings : Settings) (execute? : Option (String → World → Ran))
    (kind : Kind) (source : Source) :
    Action.perform settings execute? (b.statement kind source) =
      (Action.sourceRecords kind source >>= Action.selected settings source none) >>=
        fun records => records.forM (b.turn kind) := by
  rw [bind_assoc]
  cases b <;> rfl

theorem on_work : (b.work record).on r = (Action.change (b.change r.session record)).on r := by
  cases b with
  | delete => rfl
  | transfer mode target =>
      rw [work, Action.on_bind, Action.on_resolve, change]

theorem on_turn :
    (b.turn kind record).on r =
      match b.change r.session record r.store with
      | (.ok _, store) =>
        (.ok (), { r with store }.reported .success (b.success kind record) (some record.name))
      | (.error f, store) =>
        if f.isRefusal then
          (.ok (),
            { r with store }.reported .error (b.failure kind record f.message) (some record.name))
        else (.error (.store f), { r with store }) := by
  rw [turn, Action.on_recordTurn, on_work]
  rcases done : b.change r.session record r.store with ⟨f | _, store⟩
  · rw [Action.on_change_error done]
    rfl
  · rw [Action.on_change_ok done]
    rfl

/-- Tells of the change for a record: names the record, and says whether the change was made or
refused by the store. -/
def Tells (change : Record × Except Store.Fault Unit) (e : Event) : Prop :=
  e.item = some change.1.name ∧
    (change.2 = .ok () ∧ e.level = .success ∨
      ∃ f, change.2 = .error f ∧ f.isRefusal = true ∧ e.level = .error)

theorem done_of_told {changes : List (Record × Except Store.Fault Unit)} {events : List Event}
    (told : List.Forall₂ Tells changes events) (succeed : ∀ e ∈ events, e.level = .success) :
    ∀ change ∈ changes, change.2 = .ok () := by
  induction told with
  | nil => simp
  | @cons change e changes events tells _ ih =>
      rw [List.forall_mem_cons] at succeed ⊢
      refine ⟨?_, ih succeed.2⟩
      obtain ⟨_, ⟨done, _⟩ | ⟨f, _, _, failed⟩⟩ := tells
      · exact done
      · rw [failed] at succeed
        cases succeed.1

/-- What the changes for some records leave, each with an event that tells of it. -/
theorem on_turns (records : List Record) : ∀ {r r' : Run},
    (records.forM (b.turn kind)).on r = (.ok (), r') →
      r'.store = b.after r.session records r.store ∧
        ∃ events, r'.events = r.events ++ events ∧
          List.Forall₂ Tells (b.results r.session records r.store) events := by
  -- over the records, for every run: the first event tells of the first change, and the run with it
  -- is where the others begin
  induction records with
  | nil =>
      intro r r' done
      cases done
      exact ⟨rfl, [], by simp, .nil⟩
  | cons record rest ih =>
      intro r r' done
      rw [Action.on_forM_cons, on_turn] at done
      rw [after, results]
      rcases changed : b.change r.session record r.store with ⟨f | _, store⟩ <;> rw [changed] at done
      · by_cases refusal : f.isRefusal = true
        · simp only [if_pos refusal] at done
          obtain ⟨left, events, told, each⟩ := ih done
          refine ⟨left, ⟨.error, b.failure kind record f.message, some record.name⟩ :: events, ?_,
            .cons ⟨rfl, .inr ⟨f, rfl, refusal, rfl⟩⟩ each⟩
          rw [told, Run.reported, List.append_assoc, List.singleton_append]
        · simp only [if_neg refusal] at done
          cases done
      · obtain ⟨left, events, told, each⟩ := ih done
        refine ⟨left, ⟨.success, b.success kind record, some record.name⟩ :: events, ?_,
          .cons ⟨rfl, .inl ⟨rfl, rfl⟩⟩ each⟩
        rw [told, Run.reported, List.append_assoc, List.singleton_append]

theorem change_delete (session : Session) (record : Record) :
    delete.change session record = Action.removal record.kind record.path := by
  rw [change, Record.isFolder]
  cases record.kind <;> rfl

/-- A change that does not stray stops, if at all, where the store refuses it. -/
theorem refusable_change {s : Store} (plain : hasNul record.path = false)
    (calm : ¬ Store.Stray (b.change session record s).1) :
    Store.Refusable (b.change session record s).1 := by
  cases b with
  | delete =>
      rw [change_delete] at calm ⊢
      exact Action.refusable_removal plain fun high => calm ((Action.stray_removal plain).mpr high)
  | transfer mode target =>
      exact Action.refusable_transferChange plain fun stops =>
        calm ((Action.stray_transferChange plain mode record.kind s).mpr stops)

theorem stray_of_turns (records : List Record)
    (plain : ∀ record ∈ records, hasNul record.path = false) : ∀ {r r' : Run} {f : Fault},
    (records.forM (b.turn kind)).on r = (.error f, r') → f.Stray := by
  induction records with
  | nil =>
      intro r r' f stopped
      cases stopped
  | cons record rest ih =>
      intro r r' f stopped
      have others : ∀ other ∈ rest, hasNul other.path = false :=
        fun other member => plain other (List.mem_cons_of_mem _ member)
      rw [Action.on_forM_cons, on_turn] at stopped
      have refusable : ¬ Store.Stray (b.change r.session record r.store).1 →
          Store.Refusable (b.change r.session record r.store).1 :=
        refusable_change (plain record (by simp))
      rcases changed : b.change r.session record r.store with ⟨g | _, store⟩ <;>
        rw [changed] at stopped refusable
      · by_cases refusal : g.isRefusal = true
        · simp only [if_pos refusal] at stopped
          exact ih others stopped
        · simp only [if_neg refusal] at stopped
          cases stopped
          by_contra calm
          exact refusal (refusable (fun stray => calm (Store.stray_error.mp stray)) g rfl)
      · exact ih others stopped

/-! Deletions. -/

theorem get?_of_deleted {s t whole : Store} {folder : String} {place : Place}
    (keeps : Store.Keeps s whole) (sound : whole.Sound)
    (stands : record.Stands whole folder place kind)
    (deleted : delete.change session record s = (.ok (), t)) (q : Place) :
    t.get? q = if place ++ [record.name] <+: q then none else s.get? q := by
  obtain ⟨own, there, leads⟩ := stands.own
  rw [change] at deleted
  split at deleted
  · obtain ⟨place', mode, ends, rfl⟩ := Store.of_removeTree deleted
    obtain ⟨e, ends', _⟩ := keeps.stat ends
    rw [leads] at ends'
    cases ends'
    exact Store.get?_eraseTree s _ q
  · obtain ⟨place', e, ends, leaf, rfl⟩ := Store.of_removeFile deleted
    obtain ⟨e', ends', alike⟩ := keeps.stat ends
    rw [leads] at ends'
    cases ends'
    rw [Store.get?_erase]
    by_cases below : place ++ [record.name] <+: q
    · rw [if_pos below]
      split
      · rfl
      · next other =>
          -- nothing stands below what is no folder
          have leaf' : ∀ mode, own ≠ .folder mode := by
            rintro mode rfl
            cases e with
            | folder mode => exact leaf mode rfl
            | _ => cases alike
          have none_below := sound.none_below there leaf' below other
          cases found : s.get? q with
          | none => rfl
          | some e =>
              obtain ⟨e', found', _⟩ := keeps _ _ found
              rw [none_below] at found'
              cases found'
    · rw [if_neg below, if_neg]
      rintro rfl
      exact below (List.prefix_refl _)

theorem get?_after_deletions {whole : Store} {folder : String} {place : Place}
    (sound : whole.Sound) (records : List Record)
    (stands : ∀ record ∈ records, record.Stands whole folder place kind) : ∀ {s : Store},
    Store.Keeps s whole → (∀ change ∈ delete.results session records s, change.2 = .ok ()) →
    ∀ q, (delete.after session records s).get? q =
      if ∃ record ∈ records, place ++ [record.name] <+: q then none else s.get? q := by
  -- over the records, for every store whose entries are all among those of the first one
  induction records with
  | nil =>
      intro s _ _ q
      simp [after]
  | cons record rest ih =>
      intro s keeps done q
      rw [results, List.forall_mem_cons] at done
      obtain ⟨first, later⟩ := done
      rcases deleted : delete.change session record s with ⟨x, t⟩
      rw [deleted] at first later
      dsimp only at first later
      subst first
      have left := get?_of_deleted keeps sound (stands record (by simp)) deleted
      rw [after, deleted, ih (fun other member => stands other (List.mem_cons_of_mem _ member))
        ((Store.keeps_of_get? left).trans keeps) later, left]
      by_cases own : place ++ [record.name] <+: q
      · simp [own]
      · simp [own]

end Batch

namespace Statement

variable {settings : Settings} {execute? : Option (String → World → Ran)} {s : Statement} {w : World}
  {r : Run}

theorem run_of_ok (done : (Action.perform settings execute? s).on { toWorld := w } = (.ok (), r)) :
    run settings execute? s w = (.ok (s.outcome r none), r.toWorld) := by
  have ran := run_eq settings execute? s w
  simp only [done] at ran
  exact ran

theorem run_of_stray {f : Fault} (stray : f.Stray)
    (stopped : (Action.perform settings execute? s).on { toWorld := w } = (.error f, r)) :
    run settings execute? s w = (.error f, r.toWorld) := by
  have ran := run_eq settings execute? s w
  simp only [stopped] at ran
  rcases ran with ⟨_, ran⟩ | ⟨calm, _⟩
  · exact ran
  · exact absurd stray calm

theorem run_select (execute? : Option (String → World → Ran)) {kind : Kind} {source : Source}
    {order : Option SortSpec} {records : List Record}
    {errors : List Where.ConditionError} {notes : List LogEntry}
    (found : source.selection settings w.session w.store kind order =
      .ok ((records, errors), notes)) :
    ∃ shown v, run settings execute? (.select kind source order none) w = (.ok shown, v) ∧
      v.store = w.store ∧ shown.records = some records ∧
      shown.events = errors.map (·.event settings.matcher) ++
        [{ level := .info, message := s!"Query matched {records.length} entries." }] := by
  let r : Run := { toWorld := w }
  have begun := Action.on_selection (r := r) found
  have same : Action.perform settings execute? (.select kind source order none) =
      (Action.sourceRecords kind source >>= Action.selected settings source order) >>= fun records =>
        (do
          modify fun r => { r with records := some records }
          Action.emit .info s!"Query matched {records.length} entries.") := by
    rw [bind_assoc]
    rfl
  refine ⟨_, _, run_of_ok (by rw [same, Action.on_bind, begun]; rfl), ?_, rfl, ?_⟩
  · exact r.listed_store settings.matcher notes errors
  · have told : (r.listed settings.matcher notes errors).events =
        errors.map (·.event settings.matcher) := r.listed_events settings.matcher notes errors
    exact congrArg (· ++ _) told

end Statement

namespace Batch

/-- A batch that is not aborted has selected its records and gone through all of them. -/
theorem of_run {settings : Settings} {execute? : Option (String → World → Ran)} {b : Batch}
    {kind : Kind} {source : Source} {w w' : World} {o : Outcome}
    (ran : Statement.run settings execute? (b.statement kind source) w = (.ok o, w'))
    (whole : o.errorCode = none) :
    ∃ records errors notes r,
      source.selection settings w.session w.store kind none = .ok ((records, errors), notes) ∧
      (records.forM (b.turn kind)).on (({ toWorld := w } : Run).listed settings.matcher notes errors) =
        (.ok (), r) ∧
      o = (b.statement kind source).outcome r none ∧ w' = r.toWorld := by
  have same := b.perform_eq settings execute? kind source
  generalize b.statement kind source = s at ran same
  rcases found : source.selection settings w.session w.store kind none with
    u | ⟨⟨records, errors⟩, notes⟩
  · have begun := Action.on_selection_of_stopped (r := { toWorld := w }) found
    have stopped : (Action.perform settings execute? s).on { toWorld := w } =
        (.error u.fault, { toWorld := { w with log := w.log ++ u.notes } }) := by
      rw [same, Action.on_bind, begun]
    rcases Source.fault_of_selection found with ⟨e, refused⟩ | stray
    · rw [refused] at stopped
      rw [Statement.errorCode_of_refused stopped] at ran
      cases ran
      cases whole
    · rw [Statement.run_of_stray stray stopped] at ran
      cases ran
  · have begun := Action.on_selection (r := { toWorld := w }) found
    rcases done : (records.forM (b.turn kind)).on
      (({ toWorld := w } : Run).listed settings.matcher notes errors) with ⟨f | _, r⟩
    · have plain : ∀ record ∈ records, hasNul record.path = false := by
        obtain ⟨folder, listed, _, list, member⟩ := Source.listed_of_selection found
        exact fun record kept => plain_of_mem_listFolder list (member record kept)
      have stopped : (Action.perform settings execute? s).on { toWorld := w } = (.error f, r) := by
        rw [same, Action.on_bind, begun]
        exact done
      rw [Statement.run_of_stray (stray_of_turns records plain done) stopped] at ran
      cases ran
    · have finished : (Action.perform settings execute? s).on { toWorld := w } = (.ok (), r) := by
        rw [same, Action.on_bind, begun]
        exact done
      rw [Statement.run_of_ok finished] at ran
      cases ran
      exact ⟨records, errors, notes, r, rfl, done, rfl, rfl⟩

end Batch

/-- A statement that changes every entry that a clause keeps, unless it is aborted, reports what the
query with the same folder and clause reports of conditions that fail, and then does one thing for
each record that the query shows, in order, whatever becomes of those before. The query sees the
store before any change. Deletions that all succeed take the entries of those records and all that
is below them, and leave everything else as it was. -/
theorem batch_follows_query {settings : Settings} {execute? : Option (String → World → Ran)}
    {b : Batch} {kind : Kind} {source : Source} {w w' : World} {o : Outcome}
    (ran : Statement.run settings execute? (b.statement kind source) w = (.ok o, w'))
    (whole : o.errorCode = none) :
    ∃ (records : List Record) (errors : List Where.ConditionError) (items : List Event)
      (shown : Outcome) (v : World),
      Statement.run settings execute? (.select kind source none none) w = (.ok shown, v) ∧
      v.store = w.store ∧ shown.records = some records ∧
      shown.events = errors.map (·.event settings.matcher) ++
        [{ level := .info, message := s!"Query matched {records.length} entries." }] ∧
      o.events = errors.map (·.event settings.matcher) ++ items ∧
      List.Forall₂ Batch.Tells (b.results w.session records w.store) items ∧
      w'.store = b.after w.session records w.store ∧
      (b = .delete → (∀ e ∈ items, e.level = .success) → w.store.Sound →
        ∃ folder place mode, source.folderIn? w.session w.store = some folder ∧
          w.store.stat true folder = .ok (place, .folder mode) ∧
          ∀ q, w'.store.get? q =
            if ∃ record ∈ records, place ++ [record.name] <+: q then none
            else w.store.get? q) := by
  obtain ⟨records, errors, notes, r, found, done, rfl, rfl⟩ := Batch.of_run ran whole
  obtain ⟨shown, v, queried, kept, shows, told⟩ :=
    Statement.run_select execute? found
  obtain ⟨left, items, added, each⟩ := Batch.on_turns records done
  rw [Run.listed_store, Run.listed_session] at left
  rw [Run.listed_events, List.nil_append] at added
  rw [Run.listed_store, Run.listed_session] at each
  refine ⟨records, errors, items, shown, v, queried, kept, shows, told, added, each, left, ?_⟩
  rintro rfl succeed sound
  obtain ⟨folder, listed, named, list, member⟩ := Source.listed_of_selection found
  obtain ⟨place, mode, ends, _⟩ := mem_listFolder list
  refine ⟨folder, place, mode, named, ends, fun q => ?_⟩
  rw [left]
  refine Batch.get?_after_deletions sound records
    (fun record kept => sound.stands ends list (member record kept)) (.refl _) ?_ q
  exact Batch.done_of_told each succeed

def twoFiles : World where
  store := { now := ⟨0⟩, entries := [(["work", "a.txt"], .file ⟨#[120]⟩ 420 ⟨0⟩), (["work", "b.md"], .file ⟨#[]⟩ 420 ⟨0⟩),
    (["work"], .folder 493), ([], .folder 493)] }
  session := .start ""

theorem deletion_follows_query :
    ∃ o w' shown v records items,
      Statement.run {} none (.deleteAll .file { clause := some "size > 0" }) twoFiles = (.ok o, w') ∧
      Statement.run {} none (.select .file { clause := some "size > 0" } none none) twoFiles =
        (.ok shown, v) ∧
      shown.records = some records ∧
      List.Forall₂ Batch.Tells (Batch.delete.results twoFiles.session records twoFiles.store) items ∧
      w'.store = Batch.delete.after twoFiles.session records twoFiles.store := by
  let s : Statement := .deleteAll .file { clause := some "size > 0" }
  rcases ran : Statement.run {} none s twoFiles with ⟨f | o, w'⟩
  · have stopped : ∃ f, (Statement.run {} none s twoFiles).1 = .error f := ⟨f, by rw [ran]⟩
    rw [Statement.stopped_iff] at stopped
    have ends : twoFiles.store.stat true "/work" = .ok (["work"], .folder 493) := by decide +kernel
    have listable := Store.listable_of_dated ends (by decide +kernel)
    obtain ⟨folder, named, unlistable⟩ := (Action.strays_deleteAll_file _).mp stopped
    have here : Source.folderIn? { clause := some "size > 0" } twoFiles.session twoFiles.store =
        some "/work" := by decide +kernel
    rw [here] at named
    cases named
    exact absurd unlistable listable
  · have goes : ¬ twoFiles.store.isFolder
        (Source.path { clause := some "size > 0" } twoFiles.session) = false := by decide
    have runs : Statement.run {} (Statement.opening {} 0) s twoFiles = (.ok o, w') := ran
    have whole := Statement.errorCode_eq_none (s := s) (by simp) goes runs
    obtain ⟨records, errors, items, shown, v, queried, _, shows, _, _, each, left, _⟩ :=
      batch_follows_query (b := .delete) ran whole
    exact ⟨o, w', shown, v, records, items, rfl, queried, shows, each, left⟩

end FileQuery
