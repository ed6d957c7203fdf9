import FileQuery.Proofs.Execution.Aborted
import FileQuery.Proofs.Execution.Batch

/-! What comes of a script. Its lines are announced and run one after the other; the outcome of the
script holds the announcements and the outcomes of the lines, unless one of them stops the run. -/
set_option autoImplicit false
namespace FileQuery

/-- The event that announces a line of a script. -/
def announcement (line : String) : Event := { level := .info, message := "Executing: " ++ line }

/-- Runs lines one after the other, up to the first that stops the run. -/
def runEach (execute : String → World → Ran) :
    List String → World → Except Fault (List Outcome) × World
  | [], w => (.ok [], w)
  | line :: rest, w =>
    match execute line w with
    | (.error f, w') => (.error f, w')
    | (.ok o, w') =>
      match runEach execute rest w' with
      | (.error f, w'') => (.error f, w'')
      | (.ok os, w'') => (.ok (o :: os), w'')

def announced (execute : String → World → Ran) (line : String) (w : World) : Ran :=
  execute line (w.announcing line)

namespace Statement

/-- What a statement gives that an error stops before it has done anything. -/
def refusedWith (s : Statement) (e : CommandError) (w : World) : Ran :=
  (.ok { statement := s, events := [{ level := .error, message := e.message }],
         errorCode := some e.exitCode },
   { w with log := w.log ++ [{ level := .error, message := e.message }] })

/-- What a statement gives that a fault of the store stops before it has done anything. -/
def failedWith (s : Statement) (f : Store.Fault) (w : World) : Ran :=
  if f.isReadable then
    (.ok { statement := s, events := [{ level := .error, message := report (.store f) }] },
     { w with log := w.log ++ [{ level := .error, message := report (.store f) }] })
  else (.error (.store f), w)

/-- What a script gives whose lines have been run. -/
def ranScript (name text : String) : Except Fault (List Outcome) × World → Ran
  | (.ok os, w) =>
    (.ok { statement := .load name, events := (scriptLines text).map announcement, children := os }, w)
  | (.error f, w) => (.error f, w)

end Statement

namespace Action

theorem on_runLines_eq (execute : String → World → Ran) (lines : List String) : ∀ r : Run,
    match runEach (announced execute) lines r.toWorld with
    | (.ok os, w) => (lines.forM (runLine execute)).on r =
        (.ok (), { r with toWorld := w, events := r.events ++ lines.map announcement,
                          children := r.children ++ os })
    | (.error f, w) => ∃ r', (lines.forM (runLine execute)).on r = (.error f, r') ∧ r'.toWorld = w := by
  induction lines with
  | nil =>
      intro r
      simp only [runEach, List.map_nil, List.append_nil]
      rfl
  | cons line rest ih =>
      intro r
      rw [on_forM_cons, on_runLine, runEach, announced]
      rcases execute line (r.toWorld.announcing line) with ⟨f | o, w⟩
      · exact ⟨_, rfl, rfl⟩
      · have left := ih { r.reported .info ("Executing: " ++ line) none with
          toWorld := w, children := r.children ++ [o] }
        dsimp only at left ⊢
        rcases each : runEach (announced execute) rest w with ⟨f | os, w'⟩ <;> rw [each] at left
        · exact left
        · dsimp only at left ⊢
          rw [left]
          simp [Run.reported, announcement]

end Action

namespace Statement

variable {settings : Settings} {name : String} {w : World}
variable {execute? : Option (String → World → Ran)} {execute : String → World → Ran}

theorem stray_of_executeBelow {n : Nat} (line : String) (w : World) (f : Fault)
    (stopped : (executeBelow settings n line w).1 = .error f) : f.Stray := by
  rw [executeBelow_eq_run] at stopped
  exact stray_of_stopped stopped

theorem run_of_refusedWith {s : Statement} {e : CommandError}
    (refused : (Action.perform settings execute? s).on { toWorld := w } =
      (.error (.command e), { toWorld := w })) :
    run settings execute? s w = refusedWith s e w := by
  have kept : (Action.perform settings execute? s).on { toWorld := w } =
    (.error (.command e), { toWorld := { w with log := w.log } }) := refused
  exact errorCode_of_refused kept

/-! What a load gives, case after case. -/

theorem run_load_missing (absent : w.store.isFile (w.session.resolve [name]) = false) :
    run settings execute? (.load name) w = refusedWith (.load name) (.noFile name) w :=
  run_of_refusedWith (Action.on_load_of_missing (r := { toWorld := w }) absent)

variable (isFile : w.store.isFile (w.session.resolve [name]) = true)
include isFile

theorem run_load_illTyped {cause : String} (limited : settings.loadLimit = .error cause) :
    run settings execute? (.load name) w = (.error (.illTyped cause), w) := by
  refine run_of_stray (r := { toWorld := w }) trivial ?_
  have work : Action.perform settings execute? (.load name) =
    Action.load settings execute? name := rfl
  rw [work]
  cases execute? with
  | none => rw [Action.on_load_none (r := { toWorld := w }) isFile, limited]
  | some execute => rw [Action.on_load_some (r := { toWorld := w }) isFile, limited]

variable {limit : LoadLimit} (limited : settings.loadLimit = .ok limit)
include limited

theorem run_load_tooDeep :
    run settings none (.load name) w =
      refusedWith (.load name) (.ofSyntax (.loadTooDeep limit.text)) w := by
  refine run_of_refusedWith ?_
  have work : Action.perform settings none (.load name) = Action.load settings none name := rfl
  rw [work, Action.on_load_none (r := { toWorld := w }) isFile, limited]

theorem run_load_unreadable {f : Store.Fault}
    (stopped : w.store.readText (w.session.resolve [name]) settings.encoding = .error f) :
    run settings (some execute) (.load name) w = failedWith (.load name) f w := by
  have stops : (Action.perform settings (some execute) (.load name)).run.run { toWorld := w } =
      (.error (.store f), { toWorld := w }) := by
    have work : Action.perform settings (some execute) (.load name) =
      Action.load settings (some execute) name := rfl
    have left : (Action.load settings (some execute) name).on { toWorld := w } = _ :=
      Action.on_load_some isFile
    rw [work]
    refine left.trans ?_
    rw [limited, stopped]
  simp only [run, stops, failedWith]
  rfl

theorem run_load_read (stray : ∀ line w f, (execute line w).1 = .error f → f.Stray) {text : String}
    (read : w.store.readText (w.session.resolve [name]) settings.encoding = .ok text) :
    run settings (some execute) (.load name) w =
      ranScript name text (runEach (announced execute) (scriptLines text) w) := by
  have work : (Action.perform settings (some execute) (.load name)).on { toWorld := w } =
      ((scriptLines text).forM (Action.runLine execute)).on { toWorld := w } := by
    have work : Action.perform settings (some execute) (.load name) =
      Action.load settings (some execute) name := rfl
    rw [work, Action.on_load_some (r := { toWorld := w }) isFile, limited, read]
  have lines := Action.on_runLines_eq execute (scriptLines text) { toWorld := w }
  dsimp only at lines
  rcases each : runEach (announced execute) (scriptLines text) w with ⟨f | os, w'⟩ <;>
    rw [each] at lines
  · obtain ⟨r, stopped, rfl⟩ := lines
    rw [stopped] at work
    exact run_of_stray (Action.stray_of_runLines stray _ stopped) work
  · rw [lines] at work
    exact run_of_ok work

end Statement

end FileQuery
