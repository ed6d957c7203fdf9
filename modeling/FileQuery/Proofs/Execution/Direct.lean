import FileQuery.CommandLine.Program
import FileQuery.Proofs.Execution.Depth

/-! Scripts and their lines. A script gives what its lines give when they are run one after the other:
announcing them only writes to the log, which no line reads, and that one script less is open while
they are run matters only to a load that was refused for its depth. -/
set_option autoImplicit false
namespace FileQuery

namespace Action

variable {α β : Type} {a : Action α}

def Deaf (a : Action α) : Prop :=
  ∀ (r : Run) (log : List LogEntry),
    ∃ log', a.on { r with log } = ((a.on r).1, { (a.on r).2 with log := log' })

theorem Deaf.bind {k : α → Action β} (first : Deaf a) (rest : ∀ x, Deaf (k x)) : Deaf (a >>= k) := by
  intro r log
  obtain ⟨log₁, same⟩ := first r log
  rw [on_bind, on_bind, same]
  rcases a.on r with ⟨f | x, r'⟩
  · exact ⟨log₁, rfl⟩
  · exact rest x r' log₁

theorem Deaf.tryCatch {handle : Fault → Action α} (body : Deaf a) (handled : ∀ f, Deaf (handle f)) :
    Deaf (tryCatch a handle : Action α) := by
  intro r log
  obtain ⟨log₁, same⟩ := body r log
  rw [on_tryCatch, on_tryCatch, same]
  rcases a.on r with ⟨f | x, r'⟩
  · exact handled f r' log₁
  · exact ⟨log₁, rfl⟩

theorem deaf_get_bind {k : Run → Action β}
    (hidden : ∀ (r : Run) (log : List LogEntry), k { r with log } = k r) (rest : ∀ r, Deaf (k r)) :
    Deaf (get >>= k) := by
  intro r log
  rw [on_bind, on_bind, on_get, on_get]
  dsimp only
  rw [hidden r log]
  exact rest r r log

theorem deaf_throw (f : Fault) : Deaf (throw f : Action α) := fun _ log => ⟨log, rfl⟩

theorem deaf_modify {g : Run → Run}
    (hidden : ∀ r log, ∃ log', g { r with log } = { g r with log := log' }) :
    Deaf (modify g : Action Unit) := by
  intro r log
  obtain ⟨log', same⟩ := hidden r log
  exact ⟨log', by rw [on_modify, on_modify, same]⟩

theorem deaf_emit (level : Level) (message : String) (item : Option String) :
    Deaf (emit level message item) := deaf_modify fun _ _ => ⟨_, rfl⟩

theorem deaf_editFile (name : String) (settings : Settings) : Deaf (editFile name settings) := by
  refine deaf_get_bind (fun _ _ => rfl) fun r => ?_
  cases r.editor with
  | none => exact deaf_throw _
  | some editor =>
      refine Deaf.bind (deaf_get_bind (fun _ _ => rfl) fun _ _ log => ⟨log, rfl⟩) fun path => ?_
      rcases Editor.edit settings.encoding path r.input { editor, store := r.store } with
        ⟨done, step, input⟩
      refine Deaf.bind (deaf_modify fun _ _ => ⟨_, rfl⟩) fun _ => ?_
      cases done with
      | error f => exact deaf_throw _
      | ok _ =>
          dsimp only
          split
          · exact deaf_emit _ _ _
          · exact deaf_emit _ _ _

theorem rules_deaf : Rules @Deaf where
  pure _ _ log := ⟨log, rfl⟩
  throw := deaf_throw
  bind := Deaf.bind
  tryCatch := Deaf.tryCatch
  get := deaf_get_bind
  emit := deaf_emit
  note _ := deaf_modify fun _ _ => ⟨_, rfl⟩
  change _ _ log := ⟨log, by rw [on_change, on_change]⟩
  records _ := deaf_modify fun _ log => ⟨log, rfl⟩
  edit := deaf_editFile

theorem deaf_use (folder : String) : Deaf (use folder) := by
  refine deaf_get_bind (fun r log => by dsimp only) fun r => ?_
  cases r.session.use r.store folder with
  | error e => exact rules_deaf.refuse e
  | ok session => exact (deaf_modify fun _ log => ⟨log, rfl⟩).bind fun _ => deaf_emit _ _ _

theorem deaf_drop : Deaf drop := by
  refine deaf_get_bind (fun _ _ => rfl) fun r => ?_
  cases r.session.drop with
  | error e => exact rules_deaf.refuse e
  | ok session => exact (deaf_modify fun _ log => ⟨log, rfl⟩).bind fun _ => deaf_emit _ _ _

end Action

def RunsDeaf (execute : String → World → Ran) : Prop :=
  ∀ (line : String) (w : World) (log : List LogEntry),
    ∃ log', execute line { w with log } = ((execute line w).1, { (execute line w).2 with log := log' })

namespace Action

variable {execute : String → World → Ran}

theorem deaf_runLine (deaf : RunsDeaf execute) (line : String) : Deaf (runLine execute line) := by
  intro r log
  obtain ⟨log', same⟩ := deaf line (r.toWorld.announcing line)
    ((Run.toWorld { r with log }).announcing line).log
  have start : (Run.toWorld { r with log }).announcing line =
      { r.toWorld.announcing line with
        log := ((Run.toWorld { r with log }).announcing line).log } := rfl
  rw [on_runLine, on_runLine, start, same]
  rcases execute line (r.toWorld.announcing line) with ⟨f | o, w⟩ <;> exact ⟨log', rfl⟩

theorem deaf_load {settings : Settings} {execute? : Option (String → World → Ran)}
    (deaf : ∀ execute, execute? = some execute → RunsDeaf execute) (name : String) :
    Deaf (load settings execute? name) := by
  refine (rules_deaf.resolve _).bind fun path => (rules_deaf.present _ _).bind fun held => ?_
  cases held with
  | false => exact deaf_throw _
  | true =>
      cases settings.loadLimit with
      | error cause => exact deaf_throw _
      | ok limit =>
          cases execute? with
          | none => exact deaf_throw _
          | some execute =>
              exact (rules_deaf.look _).bind fun text =>
                rules_deaf.forM (deaf_runLine (deaf execute rfl)) _

end Action

namespace Statement

theorem deaf_perform (settings : Settings) {execute? : Option (String → World → Ran)}
    (deaf : ∀ execute, execute? = some execute → RunsDeaf execute) (s : Statement) :
    Action.Deaf (Action.perform settings execute? s) := by
  cases s with
  | load name =>
      have work : Action.perform settings execute? (.load name) =
        Action.load settings execute? name := rfl
      rw [work]
      exact Action.deaf_load deaf name
  | use folder => exact Action.deaf_use folder
  | drop => exact Action.deaf_drop
  | _ =>
      refine Action.rules_deaf.perform ?_
      trivial

theorem deaf_run (settings : Settings) {execute? : Option (String → World → Ran)}
    (deaf : ∀ execute, execute? = some execute → RunsDeaf execute) (s : Statement) (w : World)
    (log : List LogEntry) : ∃ log', run settings execute? s { w with log } =
      ((run settings execute? s w).1, { (run settings execute? s w).2 with log := log' }) := by
  obtain ⟨log', same⟩ := deaf_perform settings deaf s { toWorld := w } log
  have work : (Action.perform settings execute? s).run.run { toWorld := { w with log } } =
    (Action.perform settings execute? s).on { ({ toWorld := w } : Run) with log } := rfl
  have work' : (Action.perform settings execute? s).run.run { toWorld := w } =
    (Action.perform settings execute? s).on { toWorld := w } := rfl
  simp only [run, work, work', same]
  rcases (Action.perform settings execute? s).on { toWorld := w } with ⟨f | _, r⟩
  · cases f with
    | store f =>
        dsimp only
        split <;> exact ⟨_, rfl⟩
    | _ => exact ⟨_, rfl⟩
  · exact ⟨_, rfl⟩

theorem deaf_executeBelow (settings : Settings) (n : Nat) : RunsDeaf (executeBelow settings n) := by
  induction n with
  | zero => exact fun line => deaf_run settings (fun _ none => by cases none) (parse line)
  | succ n ih =>
      refine fun line => deaf_run settings (fun execute same => ?_) (parse line)
      rw [← Option.some.inj same]
      exact ih

end Statement

/-! One script less. -/

/-- The outcome of a load that is refused since too many scripts are open. -/
def Outcome.TooDeep (o : Outcome) : Prop :=
  ∃ name limit w, (Statement.refusedWith (.load name) (.ofSyntax (.loadTooDeep limit)) w).1 = .ok o

/-- No load in a tree was refused since too many scripts were open. -/
def Outcome.HasRoom (o : Outcome) : Prop := ∀ path node, o.at? path = some node → ¬ node.TooDeep

theorem Outcome.not_tooDeep {o : Outcome} (code : o.errorCode = none) : ¬ o.TooDeep := by
  rintro ⟨_, _, _, same⟩
  rw [← Except.ok.inj same] at code
  cases code

theorem Outcome.HasRoom.node {o : Outcome} (calm : ¬ o.TooDeep)
    (each : ∀ c ∈ o.children, c.HasRoom) : o.HasRoom := by
  intro path node found
  cases path with
  | nil =>
      cases found
      exact calm
  | cons i path =>
      obtain ⟨c, child, found⟩ := Option.bind_eq_some_iff.mp found
      exact each c (List.mem_of_getElem? child) path node found

theorem Outcome.HasRoom.child {o c : Outcome} (room : o.HasRoom) (member : c ∈ o.children) :
    c.HasRoom := by
  obtain ⟨i, there⟩ := List.mem_iff_getElem?.mp member
  intro path node found
  exact room (i :: path) node (by rw [Outcome.at?, there]; exact found)

/-- A line that runs with so many scripts open runs the same with one less, unless a load in it was
refused. -/
theorem Runs.sooner {settings : Settings} {d d' : Int} {line : String} {w : World} {ran : Ran}
    (runs : Runs settings d line w ran d') :
    ∀ {o : Outcome}, ran.1 = .ok o → o.HasRoom → Runs settings (d - 1) line w ran (d' - 1) := by
  refine @Runs.rec settings
    (fun d line w ran d' _ => ∀ {o : Outcome}, ran.1 = .ok o → o.HasRoom →
      Runs settings (d - 1) line w ran (d' - 1))
    (fun d lines w done d' _ => ∀ {os : List Outcome}, done.1 = .ok os → (∀ o ∈ os, o.HasRoom) →
      RunsEach settings (d - 1) lines w done (d' - 1))
    ?alone ?missing ?illTyped ?tooDeep ?unreadable ?script ?nil ?stopped ?stoppedLater ?next
    _ _ _ _ _ runs
  case alone => exact fun other _ _ _ => .alone other
  case missing => exact fun loads absent _ _ _ => .missing loads absent
  case illTyped => exact fun loads isFile limited _ _ _ => .illTyped loads isFile limited
  case tooDeep =>
    intro d line name w limit loads isFile limited deep o same room
    exact absurd ⟨_, _, w, same⟩ (room [] _ rfl)
  case unreadable =>
    exact fun loads isFile limited below stopped _ _ _ =>
      .unreadable loads isFile limited (by omega) stopped
  case script =>
    intro d d' line name text w limit done loads isFile limited below read each sooner o same room
    rcases done with ⟨f | os, w'⟩
    · cases same
    · rw [← Except.ok.inj same] at room
      have lines := sooner rfl fun c member => room.child member
      have count : d + 1 - 1 = d - 1 + 1 := by omega
      rw [count] at lines
      exact .script loads isFile limited (by omega) read lines
  case nil => exact fun _ _ => .nil
  case stopped => exact fun first _ os same => by cases same
  case stoppedLater => exact fun first others _ _ os same => by cases same
  case next =>
    intro d d' d'' line rest w w' w'' o os first others head tail os' same room
    rw [← Except.ok.inj same] at room
    exact .next (head rfl (room _ (by simp)))
      (tail rfl fun o member => room o (List.mem_cons_of_mem _ member))

namespace Statement

variable {settings : Settings}

/-- With one level more, a line gives the same outcome, unless a load in it was refused. -/
theorem executeBelow_of_room {n : Nat} {line : String} {w w' : World} {o : Outcome}
    (ran : executeBelow settings n line w = (.ok o, w')) (room : o.HasRoom) :
    executeBelow settings (n + 1) line w = (.ok o, w') := by
  obtain ⟨d, left⟩ : ∃ d : Int, ∀ limit, settings.loadLimit = .ok limit → limit.levels - d = n := by
    cases settings.loadLimit with
    | error cause => exact ⟨0, by simp⟩
    | ok limit => exact ⟨limit.levels - n, by rintro _ ⟨⟩; omega⟩
  have runs : Runs settings d line w (.ok o, w') d :=
    (runs_iff n (fun limit limited => by rw [left limit limited]; rfl) _ _ _ _).mpr ⟨ran.symm, rfl⟩
  have sooner := runs.sooner rfl room
  refine ((runs_iff (n + 1) (fun limit limited => ?_) _ _ _ _).mp sooner).1.symm
  have left := left limit limited
  omega

end Statement

/-! Lines one after the other. -/

theorem runEach_of_room {execute execute' : String → World → Ran}
    (same : ∀ line w o w', execute line w = (.ok o, w') → o.HasRoom → execute' line w = (.ok o, w'))
    (lines : List String) : ∀ {w w' : World} {os : List Outcome},
      runEach execute lines w = (.ok os, w') → (∀ o ∈ os, o.HasRoom) →
        runEach execute' lines w = (.ok os, w') := by
  induction lines with
  | nil => exact fun ran _ => ran
  | cons line rest ih =>
      intro w w' os ran room
      rw [runEach] at ran
      rcases first : execute line w with ⟨f | o, w₁⟩ <;> rw [first] at ran
      · cases ran
      · dsimp only at ran
        rcases left : runEach execute rest w₁ with ⟨f | os', w₂⟩ <;> rw [left] at ran
        · cases ran
        · cases ran
          rw [runEach, same line w o w₁ first (room o (by simp))]
          dsimp only
          rw [ih left fun o member => room o (List.mem_cons_of_mem _ member)]

theorem runEach_log {execute execute' : String → World → Ran}
    (same : ∀ (line : String) (w : World) (log : List LogEntry), ∃ log',
      execute line { w with log } = ((execute' line w).1, { (execute' line w).2 with log := log' }))
    (lines : List String) : ∀ (w : World) (log : List LogEntry), ∃ log',
      runEach execute lines { w with log } =
        ((runEach execute' lines w).1, { (runEach execute' lines w).2 with log := log' }) := by
  induction lines with
  | nil => exact fun w log => ⟨log, rfl⟩
  | cons line rest ih =>
      intro w log
      obtain ⟨log₁, first⟩ := same line w log
      rw [runEach, runEach, first]
      rcases execute' line w with ⟨f | o, w'⟩
      · exact ⟨log₁, rfl⟩
      · obtain ⟨log₂, left⟩ := ih w' log₁
        dsimp only
        rw [left]
        rcases runEach execute' rest w' with ⟨f | os, w''⟩ <;> exact ⟨log₂, rfl⟩

theorem RunsDeaf.announced {execute : String → World → Ran} (deaf : RunsDeaf execute) (line : String)
    (w : World) (log : List LogEntry) : ∃ log', execute line { w with log } =
      ((announced execute line w).1, { (announced execute line w).2 with log := log' }) :=
  deaf line (w.announcing line) log

namespace CommandLine.Work

theorem run_bind {α β : Type} {a : Work α} {k : α → Work β} {p p' : Process} {x : α}
    (done : a.run.run p = (.ok x, p')) : (a >>= k).run.run p = (k x).run.run p' := by
  have ran : a p = _ := done
  simp only [ExceptT.run, bind, ExceptT.bind, ExceptT.mk, StateT.bind, StateT.run, ran]
  rfl

theorem run_readScript {p : Process} {path text : String}
    (read : p.store.readText path .utf8 = .ok text) :
    (readScript path).run.run p = (.ok (scriptLines text), p) := by
  refine (run_bind (x := p) rfl).trans ?_
  rw [read]
  rfl

theorem run_runStatements (s : Surroundings) {settings : Settings} (lines : List String) :
    ∀ {p : Process} {w w' : World} {os : List Outcome},
      runEach (execute settings) lines w = (.ok os, w') → p.store = w.store →
        ∃ p', (runStatements s settings true lines w).run.run p = (.ok os, p') ∧
          p'.store = w'.store := by
  induction lines with
  | nil =>
      intro p w w' os ran held
      cases ran
      exact ⟨p, rfl, held⟩
  | cons line rest ih =>
      intro p w w' os ran held
      rw [runEach] at ran
      rcases first : execute settings line w with ⟨f | o, w₁⟩ <;> rw [first] at ran
      · cases ran
      · dsimp only at ran
        rcases left : runEach (execute settings) rest w₁ with ⟨f | os', w₂⟩ <;> rw [left] at ran
        · cases ran
        · cases ran
          -- the program empties the log after each line
          obtain ⟨log, silent⟩ :=
            runEach_log (Statement.deaf_executeBelow settings settings.levels) rest w₁ []
          have same : runEach (Statement.executeBelow settings settings.levels) rest w₁ =
              (.ok os', w') := left
          rw [same] at silent
          obtain ⟨p', ended, stored⟩ := ih (p := ((settle w₁ >>= fun _ => display s true o).run.run p).2)
            silent rfl
          refine ⟨p', ?_, stored⟩
          rw [runStatements, first]
          refine (run_bind (x := ()) rfl).trans ((run_bind (x := ()) rfl).trans ?_)
          exact run_bind ended

end CommandLine.Work

/-- A script that is run gives the announcements of its lines and the outcomes that they give when they
are run one after the other with one level less. Unless a load in it was refused for its depth, they
give the same outcomes, and leave the same world but for the log, with all the levels that the load
had; so does the program when it is called with the script. -/
theorem load_runs_lines {settings : Settings} {n : Nat} {line name text : String} {w w' : World}
    {o : Outcome} (loads : Statement.parse line = .load name)
    (isFile : w.store.isFile (w.session.resolve [name]) = true)
    (read : w.store.readText (w.session.resolve [name]) settings.encoding = .ok text)
    (ran : Statement.executeBelow settings (n + 1) line w = (.ok o, w')) :
    o.events = (scriptLines text).map announcement ∧
    (∃ log, runEach (Statement.executeBelow settings n) (scriptLines text) w =
      (.ok o.children, { w' with log })) ∧
    (o.HasRoom →
      (∃ log, runEach (Statement.executeBelow settings (n + 1)) (scriptLines text) w =
        (.ok o.children, { w' with log })) ∧
      (n + 1 = settings.levels → ∀ (s : CommandLine.Surroundings) (p : CommandLine.Process)
        (path : String), p.store = w.store → p.store.readText path .utf8 = .ok text →
        ∃ p', (CommandLine.Work.readScript path >>= fun lines =>
            CommandLine.Work.runStatements s settings true lines w).run.run p = (.ok o.children, p') ∧
          p'.store = w'.store)) := by
  rw [Statement.executeBelow_eq_run, loads, Statement.opening] at ran
  cases limited : settings.loadLimit with
  | error cause =>
      rw [Statement.run_load_illTyped isFile limited] at ran
      cases ran
  | ok limit =>
      rw [Statement.run_load_read isFile limited Statement.stray_of_executeBelow read] at ran
      rcases each : runEach (announced (Statement.executeBelow settings n)) (scriptLines text) w
        with ⟨f | os, v⟩ <;> rw [each] at ran
      · cases ran
      · cases ran
        have direct := runEach_log (Statement.deaf_executeBelow settings n).announced
          (scriptLines text) w w.log
        rw [each] at direct
        refine ⟨rfl, direct, fun room => ?_⟩
        obtain ⟨log, direct⟩ := direct
        have higher : runEach (Statement.executeBelow settings (n + 1)) (scriptLines text) w = _ :=
          runEach_of_room (fun _ _ _ _ => Statement.executeBelow_of_room) (scriptLines text) direct
            fun c member => room.child member
        refine ⟨⟨log, higher⟩, fun top s p path held script => ?_⟩
        rw [top] at higher
        obtain ⟨p', ended, stored⟩ := CommandLine.Work.run_runStatements s _ higher held
        exact ⟨p', (CommandLine.Work.run_bind (CommandLine.Work.run_readScript script)).trans ended,
          stored⟩

def noteAndDrop : World where
  store := { now := ⟨0⟩, entries := [(["work", "s.fql"], .file ⟨#[47, 47, 32, 117, 112, 10, 32, 68, 82, 79, 80]⟩ 420 ⟨0⟩),
    (["work"], .folder 493), ([], .folder 493)] }
  session := .start ""

theorem load_runs_drop :
    ∃ o w' log, execute {} "LOAD \"s.fql\"" noteAndDrop = (.ok o, w') ∧
      o.events = [announcement "DROP"] ∧
      runEach (execute {}) ["DROP"] noteAndDrop = (.ok o.children, { w' with log }) := by
  have shape : (execute {} "LOAD \"s.fql\"" noteAndDrop).1.toOption.map (fun o =>
      (o.errorCode, o.children.map fun c => (c.errorCode, c.children.isEmpty))) =
        some (none, [(none, true)]) := by decide +kernel
  rcases ran : execute {} "LOAD \"s.fql\"" noteAndDrop with ⟨f | o, w'⟩ <;> rw [ran] at shape
  · cases shape
  · obtain ⟨code, shape⟩ := Prod.ext_iff.mp (Option.some.inj shape)
    obtain ⟨c, rest, children, below, none⟩ := List.map_eq_cons_iff.mp shape
    rw [List.map_eq_nil_iff] at none
    obtain ⟨code', bare⟩ := Prod.ext_iff.mp below
    dsimp only at code code' bare
    have room : o.HasRoom := by
      refine .node (Outcome.not_tooDeep code) fun c' member => ?_
      rw [children, none, List.mem_singleton] at member
      subst member
      refine .node (Outcome.not_tooDeep code') fun c' member => ?_
      rw [List.isEmpty_iff.mp bare] at member
      cases member
    have loads : Statement.parse "LOAD \"s.fql\"" = .load "s.fql" := by decide +kernel
    have read : noteAndDrop.store.readText (noteAndDrop.session.resolve ["s.fql"]) .utf8 =
      .ok "// up\n DROP" := by decide +kernel
    obtain ⟨events, _, direct⟩ := load_runs_lines (n := 7) loads (by decide +kernel) read ran
    obtain ⟨⟨log, direct⟩, _⟩ := direct room
    have lines : scriptLines "// up\n DROP" = ["DROP"] := by decide +kernel
    rw [lines] at events direct
    exact ⟨o, w', log, rfl, events, direct⟩

end FileQuery
