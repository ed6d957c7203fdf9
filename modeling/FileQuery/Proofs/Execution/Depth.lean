import FileQuery.Proofs.Execution.Rules
import FileQuery.Proofs.Execution.Script

/-! How deep scripts go. Lines are run with a count of the scripts that are open: it goes up when a
script is opened and down when it is left, and a script is opened only if the count is below the
limit. With so many levels left as the count is below the limit, this is how lines are run. -/
set_option autoImplicit false
namespace FileQuery

mutual

/-- A line that is run with so many scripts open gives a result, after which so many are. -/
inductive Runs (settings : Settings) : Int → String → World → Ran → Int → Prop where
  | alone {d : Int} {line : String} {w : World} (other : ∀ name, Statement.parse line ≠ .load name) :
      Runs settings d line w (Statement.run settings none (Statement.parse line) w) d
  | missing {d : Int} {line name : String} {w : World} (loads : Statement.parse line = .load name)
      (absent : w.store.isFile (w.session.resolve [name]) = false) :
      Runs settings d line w (Statement.refusedWith (.load name) (.noFile name) w) d
  | illTyped {d : Int} {line name cause : String} {w : World}
      (loads : Statement.parse line = .load name)
      (isFile : w.store.isFile (w.session.resolve [name]) = true)
      (limited : settings.loadLimit = .error cause) :
      Runs settings d line w (.error (.illTyped cause), w) d
  | tooDeep {d : Int} {line name : String} {w : World} {limit : LoadLimit}
      (loads : Statement.parse line = .load name)
      (isFile : w.store.isFile (w.session.resolve [name]) = true)
      (limited : settings.loadLimit = .ok limit) (deep : limit.levels ≤ d) :
      Runs settings d line w
        (Statement.refusedWith (.load name) (.ofSyntax (.loadTooDeep limit.text)) w) d
  | unreadable {d : Int} {line name : String} {w : World} {limit : LoadLimit} {f : Store.Fault}
      (loads : Statement.parse line = .load name)
      (isFile : w.store.isFile (w.session.resolve [name]) = true)
      (limited : settings.loadLimit = .ok limit) (room : d < limit.levels)
      (stopped : w.store.readText (w.session.resolve [name]) settings.encoding = .error f) :
      Runs settings d line w (Statement.failedWith (.load name) f w) d
  | script {d d' : Int} {line name text : String} {w : World} {limit : LoadLimit}
      {done : Except Fault (List Outcome) × World} (loads : Statement.parse line = .load name)
      (isFile : w.store.isFile (w.session.resolve [name]) = true)
      (limited : settings.loadLimit = .ok limit) (room : d < limit.levels)
      (read : w.store.readText (w.session.resolve [name]) settings.encoding = .ok text)
      (each : RunsEach settings (d + 1) (scriptLines text) w done d') :
      Runs settings d line w (Statement.ranScript name text done) (d' - 1)

/-- The lines of a script that are run, each once it is announced, with so many scripts open. -/
inductive RunsEach (settings : Settings) :
    Int → List String → World → Except Fault (List Outcome) × World → Int → Prop where
  | nil {d : Int} {w : World} : RunsEach settings d [] w (.ok [], w) d
  | stopped {d d' : Int} {line : String} {rest : List String} {w w' : World} {f : Fault}
      (first : Runs settings d line (w.announcing line) (.error f, w') d') :
      RunsEach settings d (line :: rest) w (.error f, w') d'
  | stoppedLater {d d' d'' : Int} {line : String} {rest : List String} {w w' w'' : World}
      {o : Outcome} {f : Fault} (first : Runs settings d line (w.announcing line) (.ok o, w') d')
      (others : RunsEach settings d' rest w' (.error f, w'') d'') :
      RunsEach settings d (line :: rest) w (.error f, w'') d''
  | next {d d' d'' : Int} {line : String} {rest : List String} {w w' w'' : World}
      {o : Outcome} {os : List Outcome}
      (first : Runs settings d line (w.announcing line) (.ok o, w') d')
      (others : RunsEach settings d' rest w' (.ok os, w'') d'') :
      RunsEach settings d (line :: rest) w (.ok (o :: os), w'') d''

end

namespace Statement

theorem run_alone {settings : Settings} {s : Statement} (other : ∀ name, s ≠ .load name)
    (execute? : Option (String → World → Ran)) (w : World) :
    run settings execute? s w = run settings none s w := by
  have same : Action.perform settings execute? s = Action.perform settings none s := by
    cases s with
    | load name => exact absurd rfl (other name)
    | _ => rfl
  rw [run, run, same]

end Statement

section
variable {settings : Settings} {d : Int}

theorem runsEach_iff {execute : String → World → Ran}
    (each : ∀ line w ran d', Runs settings d line w ran d' ↔ ran = execute line w ∧ d' = d)
    (lines : List String) : ∀ {w : World} {done : Except Fault (List Outcome) × World} {d' : Int},
      RunsEach settings d lines w done d' ↔ done = runEach (announced execute) lines w ∧ d' = d := by
  induction lines with
  | nil =>
      intro w done d'
      constructor
      · rintro ⟨⟩
        exact ⟨rfl, rfl⟩
      · rintro ⟨rfl, rfl⟩
        exact .nil
  | cons line rest ih =>
      intro w done d'
      rw [runEach, announced]
      constructor
      · rintro (_ | first | ⟨first, others⟩ | ⟨first, others⟩) <;>
          obtain ⟨ran, rfl⟩ := (each _ _ _ _).mp first <;> rw [← ran]
        · exact ⟨rfl, rfl⟩
        all_goals
          obtain ⟨left, same⟩ := ih.mp others
          dsimp only
          rw [← left]
          exact ⟨rfl, same⟩
      · rintro ⟨rfl, rfl⟩
        have first := (each line (w.announcing line) _ d').mpr ⟨rfl, rfl⟩
        rcases ran : execute line (w.announcing line) with ⟨f | o, w'⟩ <;> rw [ran] at first
        · exact .stopped first
        · have others : RunsEach settings d' rest w' (runEach (announced execute) rest w') d' :=
            ih.mpr ⟨rfl, rfl⟩
          dsimp only
          rcases left : runEach (announced execute) rest w' with ⟨f | os, w''⟩ <;>
            rw [left] at others
          · exact .stoppedLater first others
          · exact .next first others

section
variable {n : Nat} {line : String} {w : World}
  (levels : ∀ limit, settings.loadLimit = .ok limit → (limit.levels - d).toNat = n)
  (inner : ∀ m, n = m + 1 → ∀ line w ran d', Runs settings (d + 1) line w ran d' ↔
    ran = Statement.executeBelow settings m line w ∧ d' = d + 1)
include levels inner

theorem Runs.eq {ran : Ran} {d' : Int} (runs : Runs settings d line w ran d') :
    ran = Statement.executeBelow settings n line w ∧ d' = d := by
  have left {limit : LoadLimit} (limited : settings.loadLimit = .ok limit)
      (room : d < limit.levels) : ∃ m, n = m + 1 :=
    ⟨n - 1, by have := levels limit limited; omega⟩
  rw [Statement.executeBelow_eq_run]
  cases runs with
  | alone other => exact ⟨(Statement.run_alone other _ w).symm, rfl⟩
  | missing loads absent =>
      rw [loads, Statement.run_load_missing absent]
      exact ⟨rfl, rfl⟩
  | illTyped loads isFile limited =>
      rw [loads, Statement.run_load_illTyped isFile limited]
      exact ⟨rfl, rfl⟩
  | tooDeep loads isFile limited deep =>
      obtain rfl : n = 0 := by
        rw [← levels _ limited]
        omega
      rw [loads, Statement.opening, Statement.run_load_tooDeep isFile limited]
      exact ⟨rfl, rfl⟩
  | unreadable loads isFile limited room stopped =>
      obtain ⟨m, rfl⟩ := left limited room
      rw [loads, Statement.opening, Statement.run_load_unreadable isFile limited stopped]
      exact ⟨rfl, rfl⟩
  | script loads isFile limited room read each =>
      obtain ⟨m, rfl⟩ := left limited room
      obtain ⟨rfl, rfl⟩ := (runsEach_iff (inner m rfl) _).mp each
      rw [loads, Statement.opening, Statement.run_load_read isFile limited
        Statement.stray_of_executeBelow read]
      exact ⟨rfl, by omega⟩

theorem runs_executeBelow :
    Runs settings d line w (Statement.executeBelow settings n line w) d := by
  rw [Statement.executeBelow_eq_run]
  by_cases other : ∀ name, Statement.parse line ≠ .load name
  · rw [Statement.run_alone other]
    exact .alone other
  obtain ⟨name, loads⟩ : ∃ name, Statement.parse line = .load name := by simpa using other
  rw [loads]
  cases isFile : w.store.isFile (w.session.resolve [name]) with
  | false =>
      rw [Statement.run_load_missing isFile]
      exact .missing loads isFile
  | true =>
      cases limited : settings.loadLimit with
      | error cause =>
          rw [Statement.run_load_illTyped isFile limited]
          exact .illTyped loads isFile limited
      | ok limit =>
          have left := levels limit limited
          cases n with
          | zero =>
              rw [Statement.opening, Statement.run_load_tooDeep isFile limited]
              exact .tooDeep loads isFile limited (by omega)
          | succ m =>
              have room : d < limit.levels := by omega
              rw [Statement.opening]
              cases read : w.store.readText (w.session.resolve [name]) settings.encoding with
              | error f =>
                  rw [Statement.run_load_unreadable isFile limited read]
                  exact .unreadable loads isFile limited room read
              | ok text =>
                  have each := (runsEach_iff (inner m rfl) (scriptLines text) (w := w)).mpr ⟨rfl, rfl⟩
                  have runs := Runs.script loads isFile limited room read each
                  rw [Statement.run_load_read isFile limited Statement.stray_of_executeBelow read]
                  rwa [Int.add_sub_cancel] at runs

end

/-- With so many levels left as the limit allows, a line is run to one result, and the count is what
it was before. -/
theorem runs_iff (n : Nat) : ∀ {d : Int},
    (∀ limit, settings.loadLimit = .ok limit → (limit.levels - d).toNat = n) →
    ∀ line w ran d', Runs settings d line w ran d' ↔
      ran = Statement.executeBelow settings n line w ∧ d' = d := by
  -- on the levels that are left: the lines of a script have one less and a count that is one higher
  induction n using Nat.strong_induction_on with
  | _ n ih =>
      intro d levels line w ran d'
      have inner (m : Nat) (same : n = m + 1) : ∀ line w ran d',
          Runs settings (d + 1) line w ran d' ↔
            ran = Statement.executeBelow settings m line w ∧ d' = d + 1 := by
        refine ih m (by omega) fun limit limited => ?_
        have left := levels limit limited
        omega
      refine ⟨Runs.eq levels inner, ?_⟩
      rintro ⟨rfl, rfl⟩
      exact runs_executeBelow levels inner

theorem Runs.count {line : String} {w : World} {ran : Ran} {d' : Int}
    (runs : Runs settings d line w ran d') : d' = d := by
  cases limited : settings.loadLimit with
  | error cause => exact ((runs_iff 0 (by simp [limited]) _ _ _ _).mp runs).2
  | ok limit =>
      exact ((runs_iff (limit.levels - d).toNat (by simp [limited]) _ _ _ _).mp runs).2

end

/-! Scripts in the tree of a line. -/

namespace Statement

variable {settings : Settings} {execute? : Option (String → World → Ran)} {s : Statement}
  {w w' : World} {o : Outcome}

theorem children_of_alone (other : ∀ name, s ≠ .load name)
    (ran : run settings execute? s w = (.ok o, w')) : o.children = [] := by
  rw [(work_of_run ran).1]
  have blind := Run.blind_children
  cases s with
  | load name => exact absurd rfl (other name)
  | use folder =>
      have same : Action.perform settings execute? (use folder) = Action.use folder := rfl
      have kept := (Action.guarded_use folder { toWorld := w }).kept
      rw [same]
      exact kept
  | drop =>
      have same : Action.perform settings execute? drop = Action.drop := rfl
      have kept := (Action.guarded_drop { toWorld := w }).kept
      rw [same]
      exact kept
  | _ =>
      refine (Action.rules_keeps blind).perform ?_ { toWorld := w }
      trivial

end Statement

namespace Outcome

/-- Whether an outcome is that of a script that was run: of a load that reports no error itself. -/
def ranScript (o : Outcome) : Bool :=
  match o.statement with
  | .load _ => countEvents .error o.events == 0
  | _ => false

@[simp] theorem ranScript_announced (name : String) (lines : List String) (children : List Outcome) :
    ranScript { statement := .load name, events := lines.map announcement, children } = true := by
  simp [ranScript, countEvents, announcement]

/-- How many scripts were run on the way to the end of a path, the end included. -/
def scriptsAlong : List Nat → Outcome → Nat
  | [], o => o.ranScript.toNat
  | i :: path, o => o.ranScript.toNat + (o.children[i]?.map (scriptsAlong path)).getD 0

end Outcome

section
variable {settings : Settings} {d d' : Int} {line : String} {w w' : World} {o : Outcome}

/-- What runs a script that there is room for, and how its lines end. -/
structure OpensScript (settings : Settings) (d : Int) (line : String) (w : World) (o : Outcome)
    (w' : World) (name text : String) (limit : LoadLimit) : Prop where
  loads : Statement.parse line = .load name
  isFile : w.store.isFile (w.session.resolve [name]) = true
  limited : settings.loadLimit = .ok limit
  room : d < limit.levels
  read : w.store.readText (w.session.resolve [name]) settings.encoding = .ok text
  each : RunsEach settings (d + 1) (scriptLines text) w (.ok o.children, w') (d + 1)

theorem Runs.outcome (runs : Runs settings d line w (.ok o, w') d') :
    o.ranScript = false ∧ o.children = [] ∨
      o.ranScript = true ∧ ∃ name text limit, OpensScript settings d line w o w' name text limit := by
  have count := runs.count
  generalize same : ((.ok o, w') : Ran) = ran at runs
  cases runs with
  | alone other =>
      have statement := Statement.statement_of_run same.symm
      refine .inl ⟨?_, Statement.children_of_alone other same.symm⟩
      rw [Outcome.ranScript, statement]
      split
      · exact absurd ‹_› (other _)
      · rfl
  | missing loads absent =>
      cases same
      exact .inl ⟨rfl, rfl⟩
  | illTyped loads isFile limited => cases same
  | tooDeep loads isFile limited deep =>
      cases same
      exact .inl ⟨rfl, rfl⟩
  | unreadable loads isFile limited room stopped =>
      rw [Statement.failedWith] at same
      split at same
      · cases same
        exact .inl ⟨rfl, rfl⟩
      · cases same
  | @script _ d₁ _ name text _ limit done loads isFile limited room read each =>
      rcases done with ⟨f | os, w₁⟩
      · cases same
      · cases same
        obtain rfl : d₁ = d + 1 := by omega
        exact .inr ⟨Outcome.ranScript_announced _ _ _, name, text, limit, loads, isFile, limited,
          room, read, each⟩

/-- Every outcome of the lines of a script is that of a line run with as many scripts open. -/
theorem RunsEach.child {lines : List String} : ∀ {w w' : World} {os : List Outcome} {d' : Int},
    RunsEach settings d lines w (.ok os, w') d' → ∀ {i : Nat} {c : Outcome}, os[i]? = some c →
      ∃ line v v', Runs settings d line v (.ok c, v') d := by
  induction lines with
  | nil =>
      rintro w w' os d' ⟨⟩ i c there
      cases there
  | cons line rest ih =>
      rintro w w' os d' (_ | _ | _ | ⟨first, others⟩) i c there
      obtain rfl := first.count
      cases i with
      | zero =>
          cases there
          exact ⟨_, _, _, first⟩
      | succ i => exact ih others there

/-- Every outcome in the tree of a line is that of a line which is run with one more script open for
every step down the tree, and every outcome above it is that of a script that was run. -/
theorem Runs.at? {limit : LoadLimit} (limited : settings.loadLimit = .ok limit) (path : List Nat) :
    ∀ {d d' : Int} {line : String} {w w' : World} {o node : Outcome},
      Runs settings d line w (.ok o, w') d' → d ≤ limit.levels → o.at? path = some node →
        (∃ line v v', Runs settings (d + path.length) line v (.ok node, v') (d + path.length)) ∧
          o.scriptsAlong path = path.length + node.ranScript.toNat ∧
          d + o.scriptsAlong path ≤ limit.levels := by
  -- down the path: a script was opened for every step, and there was room for it
  induction path with
  | nil =>
      intro d d' line w w' o node runs within found
      cases found
      obtain rfl := runs.count
      refine ⟨⟨line, w, w', by simpa using runs⟩, by simp [Outcome.scriptsAlong], ?_⟩
      rw [Outcome.scriptsAlong]
      rcases runs.outcome with ⟨none, _⟩ | ⟨ran, name, text, limit', opened⟩
      · rw [none]
        exact (Int.add_zero _).trans_le within
      · have same := opened.limited
        rw [limited] at same
        cases same
        have room := opened.room
        rw [ran, Bool.toNat_true]
        omega
  | cons i path ih =>
      intro d d' line w w' o node runs within found
      rw [Outcome.at?, Option.bind_eq_some_iff] at found
      obtain ⟨c, child, found⟩ := found
      rcases runs.outcome with ⟨_, bare⟩ | ⟨ran, name, text, limit', opened⟩
      · rw [bare] at child
        cases child
      · have same := opened.limited
        rw [limited] at same
        cases same
        have room := opened.room
        obtain ⟨line', v, v', below⟩ := opened.each.child child
        obtain ⟨there, along, bound⟩ := ih below (by omega) found
        have deeper : d + 1 + (path.length : Int) = d + ((i :: path).length : Nat) := by
          rw [List.length_cons]
          omega
        have steps : o.scriptsAlong (i :: path) = 1 + c.scriptsAlong path := by
          rw [Outcome.scriptsAlong, child, ran]
          rfl
        rw [deeper] at there
        exact ⟨there, by rw [steps, along, List.length_cons]; omega, by rw [steps]; omega⟩

end

/-- Every line ends, whatever scripts there are and whatever they do to the store, with as many
scripts open as before, also when it is stopped; with none open it ends as lines are run. No path
down the tree of a line meets more scripts that were run than the limit: an outcome lies as deep as
scripts are open for its line, and says that it is of a script just if there was room for one, which
was read and run. Where as many are open as the limit allows, a script that is there is refused. -/
theorem scripts_are_bounded {settings : Settings} {limit : Nat} {text : String}
    (limited : settings.loadLimit = .ok ⟨limit, text⟩) :
    (∀ d line w, ∃ ran, ∀ ran' d', Runs settings d line w ran' d' ↔ ran' = ran ∧ d' = d) ∧
    (∀ line w ran d', Runs settings 0 line w ran d' ↔ ran = execute settings line w ∧ d' = 0) ∧
    (∀ line w o w' path node, execute settings line w = (.ok o, w') → o.at? path = some node →
      (∃ line' v v', Runs settings path.length line' v (.ok node, v') path.length) ∧
        o.scriptsAlong path = path.length + node.ranScript.toNat ∧ o.scriptsAlong path ≤ limit) ∧
    (∀ d line w o w', Runs settings d line w (.ok o, w') d → (o.ranScript = true ↔
      ∃ name script, OpensScript settings d line w o w' name script ⟨limit, text⟩)) ∧
    (∀ line w name ran d', Statement.parse line = .load name →
      w.store.isFile (w.session.resolve [name]) = true → Runs settings limit line w ran d' →
      ran = Statement.refusedWith (.load name) (.ofSyntax (.loadTooDeep text)) w) := by
  have counted (d : Int) (line : String) (w : World) (ran : Ran) (d' : Int) :
      Runs settings d line w ran d' ↔
        ran = Statement.executeBelow settings (limit - d).toNat line w ∧ d' = d :=
    runs_iff _ (by simp [limited]) line w ran d'
  have top : settings.levels = ((limit : Int) - 0).toNat := by simp [Settings.levels, limited]
  refine ⟨fun d line w => ⟨_, counted d line w⟩, ?_, ?_, ?_, ?_⟩
  · intro line w ran d'
    rw [counted 0, execute, top]
  · intro line w o w' path node ran found
    have runs : Runs settings 0 line w (.ok o, w') 0 := by
      rw [counted 0, ← top]
      exact ⟨ran.symm, rfl⟩
    obtain ⟨there, along, bound⟩ := runs.at? limited path (by simp) found
    rw [Int.zero_add] at there
    exact ⟨there, along, by simpa using bound⟩
  · intro d line w o w' runs
    constructor
    · intro ran
      rcases runs.outcome with ⟨none, _⟩ | ⟨_, name, script, limit', opened⟩
      · rw [none] at ran
        cases ran
      · have same := opened.limited
        rw [limited] at same
        cases same
        exact ⟨name, script, opened⟩
    · rintro ⟨name, script, opened⟩
      have again := Runs.script opened.loads opened.isFile opened.limited opened.room opened.read
        opened.each
      have same := ((counted d line w _ _).mp runs).1.trans ((counted d line w _ _).mp again).1.symm
      obtain ⟨same, -⟩ := Prod.ext_iff.mp same
      rw [Except.ok.inj same]
      exact Outcome.ranScript_announced _ _ _
  · intro line w name ran d' loads isFile runs
    rw [((counted limit line w ran d').mp runs).1, Int.sub_self, Statement.executeBelow_eq_run, loads]
    exact Statement.run_load_tooDeep isFile limited

def selfLoading : World where
  store := { now := ⟨0⟩, entries := [(["work", "s.fql"],
      .file ⟨#[76, 79, 65, 68, 32, 34, 115, 46, 102, 113, 108, 34]⟩ 420 ⟨0⟩),
    (["work"], .folder 493), ([], .folder 493)] }
  session := .start ""

theorem selfLoading_is_bounded :
    ∃ o w' node, execute { loadLimit := .ok ⟨2, "2"⟩ } "LOAD \"s.fql\"" selfLoading = (.ok o, w') ∧
      o.at? [0, 0] = some node ∧ node.ranScript = false ∧ o.scriptsAlong [0, 0] = 2 ∧
      ∃ line v v', Runs { loadLimit := .ok ⟨2, "2"⟩ } 2 line v (.ok node, v') 2 := by
  have refused : ((execute { loadLimit := .ok ⟨2, "2"⟩ } "LOAD \"s.fql\"" selfLoading).1.toOption.bind
      (Outcome.at? [0, 0])).map (·.ranScript) = some false := by decide +kernel
  obtain ⟨node, found, none⟩ := Option.map_eq_some_iff.mp refused
  obtain ⟨o, returned, found⟩ := Option.bind_eq_some_iff.mp found
  have limited : Settings.loadLimit { loadLimit := .ok ⟨2, "2"⟩ } = .ok ⟨(2 : Nat), "2"⟩ := rfl
  rcases ran : execute { loadLimit := .ok ⟨2, "2"⟩ } "LOAD \"s.fql\"" selfLoading with ⟨f | o', w'⟩ <;>
    rw [ran] at returned
  · cases returned
  · cases returned
    obtain ⟨_, _, nodes, _⟩ := scripts_are_bounded limited
    obtain ⟨there, along, _⟩ := nodes _ _ _ _ _ _ ran found
    rw [none] at along
    exact ⟨o, w', node, rfl, found, none, along, there⟩

end FileQuery
