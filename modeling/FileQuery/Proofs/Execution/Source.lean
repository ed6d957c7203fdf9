import FileQuery.Proofs.Execution.Script
import FileQuery.Proofs.Execution.SessionFolder

/-! Naming a folder and going there. A statement about the entries of a folder does with the folder
named in it what it does without the name once the session has moved there: both list one folder
under one path, and nothing that follows the listing asks where the session is. -/
set_option autoImplicit false
namespace FileQuery

theorem Run.listed_elsewhere (matcher : Matcher) (r : Run) (session : Session)
    (log notes : List LogEntry) (errors : List Where.ConditionError) : ∃ log',
    ({ r with session, log } : Run).listed matcher notes errors =
      { r.listed matcher notes errors with session, log := log' } := by
  obtain ⟨log₁, here⟩ := Run.warned_eq matcher errors { r with log := r.log ++ notes }
  obtain ⟨log₂, there⟩ := Run.warned_eq matcher errors { r with session, log := log ++ notes }
  refine ⟨log₂, ?_⟩
  rw [listed, listed, here, there]

theorem Source.selection_congr {source source' : Source} {session session' : Session} {s : Store}
    {folder : String} (leads : source.folderIn? session s = some folder)
    (leads' : source'.folderIn? session' s = some folder) (clause : source.clause = source'.clause)
    (settings : Settings) (kind : Kind) (order : Option SortSpec) :
    source.selection settings session s kind order =
      source'.selection settings session' s kind order := by
  rw [selection, selection, leads, leads', clause]

theorem Source.folderIn?_some {session : Session} {s : Store} {d : String}
    (normal : d = "" → session.Normal) (isFolder : s.isFolder (session.resolve [d]) = true)
    (clause : Option String) :
    Source.folderIn? ⟨some d, clause⟩ session s = some (session.resolve [d]) := by
  by_cases empty : d = ""
  · rw [empty, (normal empty).resolve_empty]
    rfl
  · have named : d.isEmpty = false := by simpa using empty
    simp only [folderIn?, named, isFolder, Bool.false_eq_true, if_false, if_true]

/-- A statement about many entries that names no path but that of their folder. -/
inductive Sweep where
  | select (order : Option SortSpec)
  | delete

namespace Sweep

def statement (kind : Kind) (source : Source) : Sweep → Statement
  | select order => .select kind source order none
  | delete => .deleteAll kind source

def order : Sweep → Option SortSpec
  | select order => order
  | delete => none

/-- What is done with the records that are kept. -/
def work (kind : Kind) (records : List Record) : Sweep → Action Unit
  | select _ => do
    modify fun r => { r with records := some records }
    Action.emit .info s!"Query matched {records.length} entries."
  | delete => records.forM (Batch.delete.turn kind)

variable {sweep : Sweep} {settings : Settings} {execute? : Option (String → World → Ran)} {kind : Kind}
  {source : Source} {records : List Record} {r : Run}

theorem perform_eq (sweep : Sweep) (settings : Settings) (execute? : Option (String → World → Ran))
    (kind : Kind) (source : Source) :
    Action.perform settings execute? (sweep.statement kind source) =
      (Action.sourceRecords kind source >>= Action.selected settings source sweep.order) >>=
        fun records => sweep.work kind records := by
  rw [bind_assoc]
  cases sweep <;> rfl

theorem on_perform {errors : List Where.ConditionError} {notes : List LogEntry}
    (found : source.selection settings r.session r.store kind sweep.order =
      .ok ((records, errors), notes)) :
    (Action.perform settings execute? (sweep.statement kind source)).on r =
      (sweep.work kind records).on (r.listed settings.matcher notes errors) := by
  rw [perform_eq, Action.on_bind, Action.on_selection found]

theorem on_perform_of_stopped (execute? : Option (String → World → Ran)) {u : Unlisted}
    (stopped : source.selection settings r.session r.store kind sweep.order = .error u) :
    (Action.perform settings execute? (sweep.statement kind source)).on r =
      (.error u.fault, { r with log := r.log ++ u.notes }) := by
  rw [perform_eq, Action.on_bind, Action.on_selection_of_stopped stopped]

/-! Two runs that differ in where the session is, and in the log. -/

theorem on_turns_elsewhere (records : List Record) (session : Session) :
    ∀ (r : Run) (log : List LogEntry), ∃ log',
      (records.forM (Batch.delete.turn kind)).on { r with session, log } =
        (((records.forM (Batch.delete.turn kind)).on r).1,
         { ((records.forM (Batch.delete.turn kind)).on r).2 with session, log := log' }) := by
  -- over the records: a deletion goes by the path that the listing gave to its record
  induction records with
  | nil => exact fun r log => ⟨log, rfl⟩
  | cons record rest ih =>
      intro r log
      have same : Batch.delete.change session record = Batch.delete.change r.session record := rfl
      rw [Action.on_forM_cons, Action.on_forM_cons, Batch.on_turn, Batch.on_turn]
      dsimp only
      rw [same]
      rcases Batch.delete.change r.session record r.store with ⟨f | _, store⟩
      · by_cases refusal : f.isRefusal = true
        · simp only [if_pos refusal]
          exact ih ({ r with store }.reported .error _ _) _
        · simp only [if_neg refusal]
          exact ⟨log, rfl⟩
      · exact ih ({ r with store }.reported .success _ _) _

theorem on_work_elsewhere (sweep : Sweep) (session : Session) (r : Run) (log : List LogEntry) :
    ∃ log', (sweep.work kind records).on { r with session, log } =
      (((sweep.work kind records).on r).1,
       { ((sweep.work kind records).on r).2 with session, log := log' }) := by
  cases sweep with
  | select order => exact ⟨_, rfl⟩
  | delete => exact on_turns_elsewhere records session r log

theorem on_perform_elsewhere (execute? : Option (String → World → Ran)) {source' : Source}
    {session : Session}
    (same : source.selection settings session r.store kind sweep.order =
      source'.selection settings r.session r.store kind sweep.order) (log : List LogEntry) :
    ∃ log', (Action.perform settings execute? (sweep.statement kind source)).on
        { r with session, log } =
      (((Action.perform settings execute? (sweep.statement kind source')).on r).1,
       { ((Action.perform settings execute? (sweep.statement kind source')).on r).2 with
         session, log := log' }) := by
  rcases found : source'.selection settings r.session r.store kind sweep.order with
    u | ⟨⟨records, errors⟩, notes⟩
  · have here := on_perform_of_stopped execute? found
    have there := on_perform_of_stopped execute? (r := { r with session, log }) (same.trans found)
    exact ⟨_, by rw [here, there]⟩
  · obtain ⟨log₁, listed⟩ := r.listed_elsewhere settings.matcher session log notes errors
    rw [on_perform found, on_perform (r := { r with session, log }) (same.trans found), listed]
    exact sweep.on_work_elsewhere session _ log₁

end Sweep

namespace Statement

variable {settings : Settings} {execute? : Option (String → World → Ran)}

/-- Statements whose work differs in where the session is give outcomes that differ in the statement. -/
theorem run_elsewhere {s s' : Statement} {w w' : World} {log : List LogEntry}
    (same : (Action.perform settings execute? s).on { toWorld := w } =
      (((Action.perform settings execute? s').on { toWorld := w' }).1,
       { ((Action.perform settings execute? s').on { toWorld := w' }).2 with
         session := w.session, log })) :
    ∃ log', run settings execute? s w =
      ((run settings execute? s' w').1.map fun o => { o with statement := s },
       { (run settings execute? s' w').2 with session := w.session, log := log' }) := by
  have work : (Action.perform settings execute? s).run.run { toWorld := w } =
    (Action.perform settings execute? s).on { toWorld := w } := rfl
  have work' : (Action.perform settings execute? s').run.run { toWorld := w' } =
    (Action.perform settings execute? s').on { toWorld := w' } := rfl
  simp only [run, work, work', same]
  rcases (Action.perform settings execute? s').on { toWorld := w' } with ⟨f | _, r⟩
  · cases f with
    | store f =>
        dsimp only
        split <;> exact ⟨_, rfl⟩
    | _ => exact ⟨_, rfl⟩
  · exact ⟨_, rfl⟩

theorem run_sweep_elsewhere (execute? : Option (String → World → Ran)) (sweep : Sweep) {kind : Kind}
    {source source' : Source} {w : World} {session : Session} (log : List LogEntry)
    (same : source.selection settings w.session w.store kind sweep.order =
      source'.selection settings session w.store kind sweep.order) :
    ∃ log', run settings execute? (sweep.statement kind source) w =
      ((run settings execute? (sweep.statement kind source') { w with session, log }).1.map
          fun o => { o with statement := sweep.statement kind source },
       { (run settings execute? (sweep.statement kind source') { w with session, log }).2 with
         session := w.session, log := log' }) := by
  let r : Run := { toWorld := { w with session, log } }
  have same' : source.selection settings w.session r.store kind sweep.order =
    source'.selection settings r.session r.store kind sweep.order := same
  obtain ⟨log₁, work⟩ := Sweep.on_perform_elsewhere execute? same' w.log
  have back : { r with session := w.session, log := w.log } = ({ toWorld := w } : Run) := rfl
  rw [back] at work
  exact run_elsewhere work

theorem run_sweep_missing (sweep : Sweep) {kind : Kind} {d : String} {w : World}
    (missing : w.store.isFolder (w.session.resolve [d]) = false) (normal : d = "" → w.session.Normal)
    (clause : Option String) :
    run settings execute? (sweep.statement kind ⟨some d, clause⟩) w =
      refusedWith (sweep.statement kind ⟨some d, clause⟩)
        (.pathNotFound (if d = "" then w.session.folder else d) none) w := by
  refine run_of_refusedWith ?_
  rw [Sweep.perform_eq, Action.on_bind, Action.on_bind, Action.on_sourceRecords]
  by_cases empty : d = ""
  · subst empty
    rw [(normal rfl).resolve_empty] at missing
    have listed := Action.on_listing (r := { toWorld := w }) w.session.folder (some kind)
    rw [listFolder_of_not_isFolder missing] at listed
    have own : Source.folderIn? ⟨some "", clause⟩ w.session w.store = some w.session.folder := rfl
    rw [own]
    dsimp only
    rw [listed]
    dsimp only
    rw [List.append_nil]
    rfl
  · have named : d.isEmpty = false := by simpa using empty
    have none : Source.folderIn? ⟨d, clause⟩ w.session w.store = none := by
      simp only [Source.folderIn?, named, missing, Bool.false_eq_true, if_false]
    rw [none, if_neg empty]
    rfl

theorem run_use (settings : Settings) (execute? : Option (String → World → Ran)) {d : String}
    {w : World}
    (isFolder : w.store.isFolder (w.session.resolve [d]) = true) :
    ∃ o log, run settings execute? (.use d) w =
      (.ok o, { w with session := ⟨w.session.resolve [d]⟩, log }) ∧ o.isSuccess = true := by
  have moved : w.session.use w.store d = .ok ⟨w.session.resolve [d]⟩ := by
    rw [Session.use, if_pos isFolder]
  obtain ⟨o, log, ran, success⟩ := moves_use settings execute? w d
  rw [moved] at ran success
  exact ⟨o, log, ran, success⟩

theorem run_use_missing {d : String} {w : World}
    (missing : w.store.isFolder (w.session.resolve [d]) = false) :
    run settings execute? (.use d) w = refusedWith (.use d) (.noFolder d) w := by
  refine run_of_refusedWith ?_
  have refused : w.session.use w.store d = .error (.noFolder d) := by
    rw [Session.use, if_neg (by simp [missing])]
  simp only [Action.perform, Action.use, Action.on_bind, Action.on_get, refused, Action.on_refuse]

end Statement

/-- A folder named in a statement is a move that is taken back. What is resolved in a session that
has moved to a folder is what the folder and it resolve to, so a query without a report and a batch of
deletions give with a folder what they give without one after the move, records with their paths and
events alike, and leave the same world but for the log, once the session is back. Where the name leads
to no folder both are aborted before they have done anything. -/
theorem source_is_move (settings : Settings) (execute? : Option (String → World → Ran)) :
    (∀ (session : Session) (folder : String) (parts : List String),
      Session.resolve ⟨session.resolve [folder]⟩ parts = session.resolve (folder :: parts)) ∧
    (∀ (sweep : Sweep) (kind : Kind) (clause : Option String) (d : String) (w : World),
      (d = "" → w.session.Normal) →
      (w.store.isFolder (w.session.resolve [d]) = true →
        ∃ moved w₁ log,
          Statement.run settings execute? (.use d) w = (.ok moved, w₁) ∧ moved.isSuccess = true ∧
          w₁.store = w.store ∧ w₁.session = ⟨w.session.resolve [d]⟩ ∧
          Statement.run settings execute? (sweep.statement kind ⟨some d, clause⟩) w =
            ((Statement.run settings execute? (sweep.statement kind ⟨none, clause⟩) w₁).1.map
                fun o => { o with statement := sweep.statement kind ⟨some d, clause⟩ },
             { (Statement.run settings execute? (sweep.statement kind ⟨none, clause⟩) w₁).2 with
               session := w.session, log })) ∧
      (w.store.isFolder (w.session.resolve [d]) = false →
        ∃ named message, Statement.run settings execute? (sweep.statement kind ⟨some d, clause⟩) w =
            Statement.refusedWith (sweep.statement kind ⟨some d, clause⟩)
              (.pathNotFound named message) w ∧
          ∃ named message, Statement.run settings execute? (.use d) w =
            Statement.refusedWith (.use d) (.pathNotFound named message) w)) ∧
    (∀ w back : World, w.session.Normal → back.store.isFolder w.session.folder = true →
      ∃ moved log, Statement.run settings execute? (.use w.session.folder) back =
        (.ok moved, { back with session := w.session, log }) ∧ moved.isSuccess = true) := by
  refine ⟨Session.resolve_resolve, ?_, ?_⟩
  · intro sweep kind clause d w normal
    constructor
    · intro isFolder
      obtain ⟨moved, log₁, ran, success⟩ := Statement.run_use settings execute? isFolder
      have named := Source.folderIn?_some normal isFolder clause
      have moves : Source.folderIn? ⟨none, clause⟩ ⟨w.session.resolve [d]⟩ w.store =
        some (w.session.resolve [d]) := rfl
      obtain ⟨log₂, gives⟩ := Statement.run_sweep_elsewhere execute? sweep log₁
        (Source.selection_congr named moves rfl settings kind sweep.order)
      exact ⟨moved, _, log₂, ran, success, rfl, rfl, gives⟩
    · intro missing
      exact ⟨_, _, Statement.run_sweep_missing sweep missing normal clause, _, _,
        Statement.run_use_missing missing⟩
  · intro w back normal isFolder
    have there := normal.resolve_folder back.session
    rw [← there] at isFolder
    obtain ⟨moved, log, ran, success⟩ := Statement.run_use settings execute? isFolder
    rw [there] at ran
    exact ⟨moved, log, ran, success⟩

/-- A folder with a file, below the folder of the session. -/
def fileBelow : World where
  store := { now := ⟨0⟩, entries := [(["work", "a", "b.txt"], .file ⟨#[120]⟩ 420 ⟨0⟩), (["work", "a"], .folder 493),
    (["work"], .folder 493), ([], .folder 493)] }
  session := .start ""

theorem deletion_is_move :
    (∃ moved w₁ log, Statement.run {} none (.use "a") fileBelow = (.ok moved, w₁) ∧
      w₁.session = ⟨"/work/a"⟩ ∧
      Statement.run {} none (.deleteAll .file ⟨some "a", some "size > 0"⟩) fileBelow =
        ((Statement.run {} none (.deleteAll .file ⟨none, some "size > 0"⟩) w₁).1.map
            fun o => { o with statement := .deleteAll .file ⟨some "a", some "size > 0"⟩ },
         { (Statement.run {} none (.deleteAll .file ⟨none, some "size > 0"⟩) w₁).2 with
           session := fileBelow.session, log })) ∧
    (∃ named message, Statement.run {} none (.use "c") fileBelow =
      Statement.refusedWith (.use "c") (.pathNotFound named message) fileBelow) ∧
    (∃ moved log, Statement.run {} none (.use "/work") fileBelow =
      (.ok moved, { fileBelow with log }) ∧ moved.isSuccess = true) := by
  obtain ⟨_, moves, returns⟩ := source_is_move {} none
  have start : fileBelow.session.Normal := Session.normal_start ""
  refine ⟨?_, ?_, ?_⟩
  · obtain ⟨moved, w₁, log, ran, _, _, there, gives⟩ :=
      (moves .delete .file (some "size > 0") "a" fileBelow fun _ => start).1 (by decide)
    have leads : fileBelow.session.resolve ["a"] = "/work/a" := by decide
    rw [leads] at there
    exact ⟨moved, w₁, log, ran, there, gives⟩
  · obtain ⟨_, _, _, named, message, refused⟩ :=
      (moves .delete .file (some "size > 0") "c" fileBelow fun _ => start).2 (by decide)
    exact ⟨named, message, refused⟩
  · have folder : fileBelow.session.folder = "/work" := by decide
    have ran := returns fileBelow fileBelow start (by decide)
    rwa [folder] at ran

end FileQuery
