import FileQuery.Execution.Statement
import FileQuery.Proofs.Execution.Folder
import FileQuery.Proofs.Statement.RoundTrip

/-! Which lines give an outcome, with the default settings. A run is stopped by four things only: a
NUL in a path that is used without asking first what is there, a lone surrogate in a text that is to be
written, a time that is no date in a folder that is to be listed, and a tree that is too high to be
removed or copied. Everything else that fails ends in an event. -/
set_option autoImplicit false
namespace FileQuery

open Store (hasNul)

/-- The world in which a line of a script is run, once it is announced. -/
def World.announcing (w : World) (line : String) : World :=
  { w with log := w.log ++ [{ level := .ofEvent .info, message := "Executing: " ++ line }] }

namespace Statement

/-- Whether a statement other than a script stops the run. -/
def StraysAlone (w : World) : Statement → Prop
  | .create _ name | .append name _ => hasNul (w.session.resolve [name]) = true
  | .read name => name = wildcard ∧ w.store.Unlistable w.session.folder
  | .write name content =>
    hasNul (w.session.resolve [name]) = true ∨
      (w.store.target (w.session.resolve [name])).isOk = true ∧
        ∃ points, Text.decodeEscapes content.toList = .ok points ∧
          ∃ n ∈ points, Text.isSurrogate n = true
  | .edit name =>
    w.editor.isSome = true ∧ hasNul (w.session.resolve [name]) = true ∧
      Editor.ComesToSave w.store (w.session.resolve [name]) w.input
  | .delete kind name =>
    if name ≠ wildcard then kind = .folder ∧ w.store.TooHigh (w.session.resolve [name])
    else w.store.Unlistable w.session.folder ∨
      ∃ records notes, listFolder w.store w.session.folder (some kind) = .ok (records, notes) ∧
        MetInTurn (fun name s => kind = .folder ∧ s.TooHigh (w.session.resolve [name]))
          (fun name s => (Action.deletion kind w.session name s).2) (records.map Record.name) w.store
  | .list _ | .count _ => w.store.Unlistable w.session.folder
  | .transfer mode kind name target =>
    if name ≠ wildcard then Action.MeetsStop mode kind target w.session name w.store
    else w.store.Unlistable w.session.folder ∨
      ∃ records notes, listFolder w.store w.session.folder (some kind) = .ok (records, notes) ∧
        MetInTurn (Action.MeetsStop mode kind target w.session)
          (fun name s => (Action.transfers mode kind target w.session name s).2)
          (records.map Record.name) w.store
  | .rename kind old new =>
    w.store.holds (w.session.resolve [old]) (some kind) = true ∧
      hasNul (w.session.resolve [new]) = true
  | .merge _ destination => hasNul (w.session.resolve [destination]) = true
  | .deleteAll kind source =>
    source.Unlistable w.session w.store ∨
      ∃ kept, source.kept? w.session w.store kind none = some kept ∧
        MetInTurn (fun record s => record.kind = .folder ∧ s.TooHigh record.path)
          (fun record s => (Action.removal record.kind record.path s).2) kept w.store
  | .transferAll mode kind target source =>
    source.Unlistable w.session w.store ∨
      ∃ kept, source.kept? w.session w.store kind none = some kept ∧
        MetInTurn (fun record s => Action.TransferStops mode record.kind record.path
            (w.session.resolve [target, record.name]) s)
          (fun record s => (Action.transferChange mode record.kind record.path
            (w.session.resolve [target, record.name]) s).2) kept w.store
  | .select kind source order into =>
    source.Unlistable w.session w.store ∨
      ∃ kept, source.kept? w.session w.store kind order = some kept ∧
        ∃ path, into = some path ∧
          (hasNul (w.session.resolve [path]) = true ∨
            (w.store.target (w.session.resolve [path])).isOk = true ∧
              ∃ text, Report.render {} path kept = .ok text ∧
                ∃ c ∈ text.toList, c ∈ w.store.undecoded)
  | _ => False

/-- Whether a statement stops the run when so many scripts may still be opened: a script does where
one of its lines does, in the world that those before it leave. -/
def Strays : Nat → Statement → World → Prop
  | n + 1, .load name, w =>
    w.store.isFile (w.session.resolve [name]) = true ∧
      ∃ text, w.store.readText (w.session.resolve [name]) .utf8 = .ok text ∧
        MetInTurn (fun line w => Strays n (parse line) (w.announcing line))
          (fun line w => (executeBelow {} n line (w.announcing line)).2) (scriptLines text) w
  | _, s, w => s.StraysAlone w

end Statement

/-! Scripts. -/

namespace Action

variable {r : Run}

theorem on_runLine (execute : String → World → Ran) (line : String) :
    (runLine execute line).on r =
      match execute line (r.toWorld.announcing line) with
      | (.ok o, w) => (.ok (), { r.reported .info ("Executing: " ++ line) none with
          toWorld := w, children := r.children ++ [o] })
      | (.error f, w) => (.error f, { r.reported .info ("Executing: " ++ line) none with
          toWorld := w }) := by
  have announced : (r.reported .info ("Executing: " ++ line) none).toWorld =
      r.toWorld.announcing line := rfl
  simp only [runLine, on_bind, on_emit, on_get, announced]
  rcases execute line (r.toWorld.announcing line) with ⟨f | o, w⟩ <;> rfl

theorem strays_runLine {execute : String → World → Ran}
    (stray : ∀ line w f, (execute line w).1 = .error f → f.Stray) (line : String) :
    (runLine execute line).Strays r ↔
      ∃ f, (execute line (r.toWorld.announcing line)).1 = .error f := by
  simp only [Strays, on_runLine]
  have strays := stray line (r.toWorld.announcing line)
  rcases ran : execute line (r.toWorld.announcing line) with ⟨f | o, w⟩
  · exact iff_of_true ⟨f, rfl, strays f (by rw [ran])⟩ ⟨f, rfl⟩
  · simp

theorem calm_runLine {execute : String → World → Ran} (line : String)
    (returned : ¬ ∃ f, (execute line (r.toWorld.announcing line)).1 = .error f) :
    ∃ r', (runLine execute line).on r = (.ok (), r') ∧ True ∧
      r'.toWorld = (execute line (r.toWorld.announcing line)).2 := by
  rw [on_runLine]
  rcases ran : execute line (r.toWorld.announcing line) with ⟨f | o, w⟩
  · exact absurd ⟨f, by rw [ran]⟩ returned
  · exact ⟨_, rfl, trivial, rfl⟩

theorem strays_load {execute : String → World → Ran}
    (stray : ∀ line w f, (execute line w).1 = .error f → f.Stray) (name : String) :
    (load {} (some execute) name).Strays r ↔
      r.store.isFile (r.session.resolve [name]) = true ∧
        ∃ text, r.store.readText (r.session.resolve [name]) .utf8 = .ok text ∧
          MetInTurn (fun line w => ∃ f, (execute line (w.announcing line)).1 = .error f)
            (fun line w => (execute line (w.announcing line)).2) (scriptLines text) r.toWorld := by
  rw [load, strays_next (on_resolve _), strays_next (on_present _ _)]
  cases held : r.store.holds (r.session.resolve [name]) (some .file) with
  | false =>
      have isFile : r.store.isFile (r.session.resolve [name]) = false := held
      simp only [isFile]
      refine iff_of_false ?_ (by simp)
      exact not_strays_of_refused (on_refuse _)
  | true =>
      have isFile : r.store.isFile (r.session.resolve [name]) = true := held
      have plain := Store.plain_of_isFile isFile
      simp only [isFile, Bool.not_true, Bool.false_eq_true, if_false, true_and]
      have looked := on_look (r := r) fun s => s.readText (r.session.resolve [name]) .utf8
      cases read : r.store.readText (r.session.resolve [name]) .utf8 with
      | error f =>
          refine iff_of_false ?_ (by simp)
          rw [strays_bind, strays_look, read, Store.stray_error,
            Store.readText_isReadable plain read]
          rintro (stray | ⟨text, r', done, _⟩)
          · cases stray
          · rw [looked, read] at done
            cases done
      | ok text =>
          rw [read] at looked
          rw [strays_next looked]
          simp only [Except.ok.injEq, exists_eq_left']
          exact strays_forM (fun r' => r'.toWorld) (fun _ => True)
            (fun line _ r' _ => strays_runLine stray line)
            (fun line _ r' _ returned => calm_runLine line returned) r trivial

theorem not_strays_load (name : String) : ¬ (load {} none name).Strays r := by
  rw [load, strays_next (on_resolve _), strays_next (on_present _ _)]
  cases r.store.holds (r.session.resolve [name]) (some .file) with
  | false => exact not_strays_of_refused (on_refuse _)
  | true => exact not_strays_refuse _

theorem not_strays_use (folder : String) : ¬ (use folder).Strays r := by
  rw [use, strays_next on_get]
  cases r.session.use r.store folder with
  | error e => exact not_strays_refuse e
  | ok session =>
      simp only
      rw [strays_next (on_modify _)]
      exact not_strays_emit _ _ _

theorem not_strays_drop : ¬ drop.Strays r := by
  rw [drop, strays_next on_get]
  cases r.session.drop with
  | error e => exact not_strays_refuse e
  | ok session =>
      simp only
      rw [strays_next (on_modify _)]
      exact not_strays_emit _ _ _

theorem strays_perform {execute? : Option (String → World → Ran)} {s : Statement}
    (alone : ∀ name, s = .load name → execute? = none) (w : World) :
    (perform {} execute? s).Strays { toWorld := w } ↔ s.StraysAlone w := by
  cases s with
  | load name =>
      rw [alone name rfl]
      exact iff_of_false (not_strays_load name) id
  | create kind name => exact strays_create kind name
  | read name => exact strays_readFile name
  | edit name => exact strays_editFile name
  | write name content => exact strays_writeFile name content
  | append name content => exact strays_appendFile name content
  | delete kind name => exact strays_delete kind name
  | use folder => exact iff_of_false (not_strays_use folder) id
  | drop => exact iff_of_false not_strays_drop id
  | list kind => exact strays_list kind
  | count kind => exact strays_count kind
  | transfer mode kind name target => exact strays_transfer mode kind name target
  | rename kind old new => exact strays_rename kind old new
  | chmod name mode => exact iff_of_false (not_strays_chmod name mode) id
  | merge sources destination => exact strays_merge sources destination
  | deleteAll kind source => exact strays_deleteAll kind source
  | transferAll mode kind target source => exact strays_transferAll mode kind target source
  | select kind source order into => exact strays_selectRecords kind source order into
  | unknown text reason => exact iff_of_false (not_strays_refuse _) id

end Action

namespace Statement

/-- What is said of a fault that ends a statement in an event. -/
def report : Fault → String
  | .store f => "Operation failed: " ++ f.message
  | f => f.message

/-- A statement gives an outcome unless its work strays; what else stops the work is the last event
of the outcome. -/
theorem run_eq (settings : Settings) (execute? : Option (String → World → Ran)) (s : Statement)
    (w : World) :
    match (Action.perform settings execute? s).on { toWorld := w } with
    | (.ok _, r) => run settings execute? s w = (.ok (s.outcome r none), r.toWorld)
    | (.error f, r) =>
      (f.Stray ∧ run settings execute? s w = (.error f, r.toWorld)) ∨
        (¬ f.Stray ∧ ∃ code, run settings execute? s w =
          (.ok (s.outcome (r.reported .error (report f) none) code),
            (r.reported .error (report f) none).toWorld)) := by
  have same : (Action.perform settings execute? s).run.run { toWorld := w } =
      (Action.perform settings execute? s).on { toWorld := w } := rfl
  simp only [run, same]
  rcases (Action.perform settings execute? s).on { toWorld := w } with ⟨f | _, r⟩
  · cases f with
    | command e => exact .inr ⟨id, _, rfl⟩
    | store f =>
        cases readable : f.isReadable with
        | false => exact .inl ⟨readable, by simp [readable]⟩
        | true =>
            refine .inr ⟨by simp [Fault.Stray, readable], none, ?_⟩
            simp only [readable, if_true]
            rfl
    | table e => exact .inl ⟨trivial, rfl⟩
    | illTyped message => exact .inl ⟨trivial, rfl⟩
    | noMember message => exact .inl ⟨trivial, rfl⟩
    | invalid message => exact .inl ⟨trivial, rfl⟩
    | noHome => exact .inl ⟨trivial, rfl⟩
  · rfl

/-- An outcome is that of work that has ended, or of work that a fault has stopped which does not
stray. -/
theorem run_eq_ok_cases {settings : Settings} {execute? : Option (String → World → Ran)}
    {s : Statement} {w w' : World} {o : Outcome} (ran : run settings execute? s w = (.ok o, w')) :
    (∃ r, (Action.perform settings execute? s).on { toWorld := w } = (.ok (), r) ∧
      o = s.outcome r none ∧ w' = r.toWorld) ∨
    ∃ f r code, (Action.perform settings execute? s).on { toWorld := w } = (.error f, r) ∧
      ¬ f.Stray ∧ o = s.outcome (r.reported .error (report f) none) code ∧
      w' = (r.reported .error (report f) none).toWorld := by
  have left := run_eq settings execute? s w
  rcases done : (Action.perform settings execute? s).on { toWorld := w } with ⟨f | _, r⟩ <;>
    simp only [done] at left
  · rcases left with ⟨_, stopped⟩ | ⟨calm, code, ended⟩
    · rw [stopped] at ran
      cases ran
    · rw [ended] at ran
      cases ran
      exact .inr ⟨f, r, code, rfl, calm, rfl, rfl⟩
  · rw [left] at ran
    cases ran
    exact .inl ⟨r, rfl, rfl, rfl⟩

theorem statement_of_run {settings : Settings} {execute? : Option (String → World → Ran)}
    {s : Statement} {w w' : World} {o : Outcome} (ran : run settings execute? s w = (.ok o, w')) :
    o.statement = s := by
  rcases run_eq_ok_cases ran with ⟨r, _, rfl, _⟩ | ⟨f, r, code, _, _, rfl, _⟩ <;> rfl

/-- A statement leaves the world that its work leaves, up to what is logged of its end. -/
theorem exists_log_of_run (settings : Settings) (execute? : Option (String → World → Ran))
    (s : Statement) (w : World) : ∃ log, (run settings execute? s w).2 =
      { ((Action.perform settings execute? s).on { toWorld := w }).2.toWorld with log } := by
  have ran := run_eq settings execute? s w
  rcases done : (Action.perform settings execute? s).on { toWorld := w } with ⟨f | _, r⟩ <;>
    simp only [done] at ran
  · rcases ran with ⟨_, ran⟩ | ⟨_, code, ran⟩
    · exact ⟨r.log, by rw [ran]⟩
    · exact ⟨_, by rw [ran]; rfl⟩
  · exact ⟨r.log, by rw [ran]⟩

theorem store_run (settings : Settings) (execute? : Option (String → World → Ran)) (s : Statement)
    (w : World) : (run settings execute? s w).2.store =
      ((Action.perform settings execute? s).on { toWorld := w }).2.store := by
  obtain ⟨log, left⟩ := exists_log_of_run settings execute? s w
  rw [left]

theorem session_run (settings : Settings) (execute? : Option (String → World → Ran)) (s : Statement)
    (w : World) : (run settings execute? s w).2.session =
      ((Action.perform settings execute? s).on { toWorld := w }).2.session := by
  obtain ⟨log, left⟩ := exists_log_of_run settings execute? s w
  rw [left]

theorem stopped_iff (settings : Settings) (execute? : Option (String → World → Ran))
    (s : Statement) (w : World) :
    (∃ f, (run settings execute? s w).1 = .error f) ↔
      (Action.perform settings execute? s).Strays { toWorld := w } := by
  have ran := run_eq settings execute? s w
  rw [Action.Strays]
  rcases done : (Action.perform settings execute? s).on { toWorld := w } with ⟨f | _, r⟩ <;>
    simp only [done] at ran
  · rcases ran with ⟨stray, ran⟩ | ⟨calm, code, ran⟩
    · exact iff_of_true ⟨f, by rw [ran]⟩ ⟨f, rfl, stray⟩
    · rw [ran]
      simp [calm]
  · rw [ran]
    simp

theorem stray_of_stopped {settings : Settings} {execute? : Option (String → World → Ran)}
    {s : Statement} {w : World} {f : Fault} (stopped : (run settings execute? s w).1 = .error f) :
    f.Stray := by
  have ran := run_eq settings execute? s w
  rcases done : (Action.perform settings execute? s).on { toWorld := w } with ⟨f' | _, r⟩ <;>
    simp only [done] at ran
  · rcases ran with ⟨stray, ran⟩ | ⟨calm, code, ran⟩
    · rw [ran] at stopped
      cases stopped
      exact stray
    · rw [ran] at stopped
      cases stopped
  · rw [ran] at stopped
    cases stopped

/-- What runs the lines of a script below which so many more may be opened. -/
def below (n : Nat) : Option (String → World → Ran) :=
  match n with
  | 0 => none
  | m + 1 => some (executeBelow {} m)

theorem executeBelow_eq (n : Nat) (line : String) :
    executeBelow {} n line = run {} (below n) (parse line) := by
  cases n <;> rfl

theorem strays_perform_below (n : Nat) : ∀ (s : Statement) (w : World),
    (Action.perform {} (below n) s).Strays { toWorld := w } ↔ s.Strays n w := by
  -- on the scripts that may still be opened: the lines of a script have one less
  induction n with
  | zero => exact fun s w => Action.strays_perform (fun _ _ => rfl) w
  | succ n ih =>
      intro s w
      cases s with
      | load name =>
          have lines : (fun line w => ∃ f, (executeBelow {} n line (w.announcing line)).1 = .error f) =
              fun line (w : World) => (parse line).Strays n (w.announcing line) := by
            funext line w
            rw [executeBelow_eq, stopped_iff, ih]
          rw [Strays, ← lines]
          exact Action.strays_load (fun line w f stopped => stray_of_stopped
            (by rwa [executeBelow_eq] at stopped)) name
      | _ => exact Action.strays_perform (fun _ same => by cases same) w

theorem executeBelow_stopped_iff (n : Nat) (line : String) (w : World) :
    (∃ f, (executeBelow {} n line w).1 = .error f) ↔ (parse line).Strays n w := by
  rw [executeBelow_eq, stopped_iff, strays_perform_below]

end Statement

/-- A line gives an outcome just if it does not stray, and an outcome of work that failed ends in an
event that says so. -/
theorem execute_returns_iff (line : String) (w : World) :
    ((∃ o, (execute {} line w).1 = .ok o) ↔ ¬ (Statement.parse line).Strays 8 w) ∧
      ∀ o, (execute {} line w).1 = .ok o → ∀ f r,
        (Action.perform {} (Statement.below 8) (Statement.parse line)).on { toWorld := w } =
          (.error f, r) →
        o.events = r.events ++ [{ level := .error, message := Statement.report f }] := by
  have below : execute {} line w = Statement.executeBelow {} 8 line w := rfl
  constructor
  · rw [← Statement.executeBelow_stopped_iff, below]
    rcases (Statement.executeBelow {} 8 line w).1 with f | o <;> simp
  · intro o returned f r failed
    rw [below, Statement.executeBelow_eq] at returned
    have ran := Statement.run_eq {} (Statement.below 8) (Statement.parse line) w
    simp only [failed] at ran
    rcases ran with ⟨_, ran⟩ | ⟨_, code, ran⟩
    · rw [ran] at returned
      cases returned
    · rw [ran] at returned
      cases returned
      rfl

/-- The name of a new file can have a NUL. -/
theorem execute_stopped_by_nul :
    ¬ ∃ o, (execute {} "CREATE FILE \"nul\x00x\""
      { store := .empty ⟨0⟩, session := .start "" }).1 = .ok o := by
  let ts : List Token :=
    [.ofWord ['C', 'R', 'E', 'A', 'T', 'E'] 0, .ofWord ['F', 'I', 'L', 'E'] 7,
      .ofString ['n', 'u', 'l', '\x00', 'x'] 12]
  have name : Token.Scans 12 ('"' :: (['n', 'u', 'l', '\x00', 'x'] ++ '"' :: []))
      [.ofString ['n', 'u', 'l', '\x00', 'x'] 12] :=
    .string (by decide) (.plain (by decide) (by decide) (.plain (by decide) (by decide)
      (.plain (by decide) (by decide) (.plain (by decide) (by decide) (.plain (by decide)
        (by decide) .nil))))) (.nil _)
  have scans : Token.Scans 0 (['C', 'R', 'E', 'A', 'T', 'E'] ++ ' ' :: (['F', 'I', 'L', 'E'] ++
      ' ' :: ('"' :: (['n', 'u', 'l', '\x00', 'x'] ++ '"' :: [])))) ts :=
    .word_blank (by decide) (by decide) (.word_blank (by decide) (by decide) name)
  have parsed : Statement.parse "CREATE FILE \"nul\x00x\"" = .create .file "nul\x00x" :=
    Statement.parse_of_scans (by decide) scans rfl
  have strays : (Statement.create .file "nul\x00x").Strays 8
      { store := .empty ⟨0⟩, session := .start "" } := by
    rw [Statement.Strays, Statement.StraysAlone]
    · decide
    · intro n name _ same
      cases same
  rintro ⟨o, returned⟩
  rw [← parsed, ← Statement.executeBelow_stopped_iff] at strays
  obtain ⟨f, stopped⟩ := strays
  have same : Statement.executeBelow {} 8 = execute {} := rfl
  rw [same, returned] at stopped
  cases stopped

end FileQuery
