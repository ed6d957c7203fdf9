import FileQuery.Proofs.Execution.Refused
import FileQuery.Proofs.Execution.Returned

/-! The tree of outcomes of a line, beside the tree of lines that are run for it. Every outcome in
the tree is that of a line which was run in a world of its own: a line of a script, in the world that
the lines before it leave. -/
set_option autoImplicit false
namespace FileQuery

/-- A line about to be run in a world, and how many scripts may still be opened for it. -/
structure Start where
  levels : Nat
  line : String
  world : World

namespace Outcome

/-- The outcome at the end of a path of places among the outcomes below one another. -/
def at? : List Nat → Outcome → Option Outcome
  | [], o => some o
  | i :: path, o => o.children[i]?.bind (at? path)

end Outcome

namespace Statement

/-- The world that the lines of a script leave, run one after the other. -/
def worldAfter (settings : Settings) (n : Nat) : List String → World → World
  | [], w => w
  | line :: rest, w => worldAfter settings n rest (executeBelow settings n line (w.announcing line)).2

/-- What runs the lines of a script where so many scripts may still be opened. -/
def opening (settings : Settings) : Nat → Option (String → World → Ran)
  | 0 => none
  | n + 1 => some (executeBelow settings n)

theorem executeBelow_eq_run (settings : Settings) (n : Nat) (line : String) :
    executeBelow settings n line = run settings (opening settings n) (parse line) := by
  cases n <;> rfl

end Statement

namespace Start

def ran (settings : Settings) (s : Start) : Ran :=
  Statement.executeBelow settings s.levels s.line s.world

/-- The lines that are run for a line: those of the script that it loads. -/
def script (settings : Settings) (s : Start) : List String :=
  match Statement.parse s.line with
  | .load name =>
    match s.world.store.readText (s.world.session.resolve [name]) settings.encoding with
    | .ok text => scriptLines text
    | .error _ => []
  | _ => []

/-- One of the lines that are run for a line, in the world that those before it leave. -/
def child? (settings : Settings) (s : Start) (i : Nat) : Option Start :=
  (s.script settings)[i]?.map fun line =>
    { levels := s.levels - 1
      line
      world := (Statement.worldAfter settings (s.levels - 1) ((s.script settings).take i)
        s.world).announcing line }

/-- The line at the end of a path of places among the lines that are run for one another. -/
def at? (settings : Settings) : List Nat → Start → Option Start
  | [], s => some s
  | i :: path, s => (s.child? settings i).bind (at? settings path)

end Start

namespace Action

theorem on_runLines {settings : Settings} {n : Nat} (lines : List String) : ∀ {r r' : Run},
    (lines.forM (runLine (Statement.executeBelow settings n))).on r = (.ok (), r') →
    ∃ outcomes, r'.children = r.children ++ outcomes ∧
      ∀ i o, outcomes[i]? = some o → ∃ line, lines[i]? = some line ∧
        (Statement.executeBelow settings n line
          ((Statement.worldAfter settings n (lines.take i) r.toWorld).announcing line)).1 = .ok o := by
  -- over the lines, for every run: the first outcome is that of the first line, and the run it
  -- leaves is where the rest begins
  induction lines with
  | nil =>
      intro r r' done
      cases done
      exact ⟨[], by simp, by simp⟩
  | cons line rest ih =>
      intro r r' done
      rw [on_forM_cons, on_runLine] at done
      rcases ran : Statement.executeBelow settings n line (r.toWorld.announcing line) with ⟨f | o, w⟩
      · rw [ran] at done
        cases done
      · rw [ran] at done
        obtain ⟨outcomes, added, each⟩ := ih done
        refine ⟨o :: outcomes, by simp [added], fun i o' found => ?_⟩
        cases i with
        | zero =>
            cases found
            exact ⟨line, rfl, by rw [List.take_zero, Statement.worldAfter, ran]⟩
        | succ i =>
            obtain ⟨line', there, ran'⟩ := each i o' found
            refine ⟨line', there, ?_⟩
            rw [List.take_succ_cons, Statement.worldAfter, ran]
            exact ran'

theorem stray_of_runLines {execute : String → World → Ran}
    (stray : ∀ line w f, (execute line w).1 = .error f → f.Stray) (lines : List String) :
    ∀ {r r' : Run} {f : Fault}, (lines.forM (runLine execute)).on r = (.error f, r') → f.Stray := by
  induction lines with
  | nil =>
      intro r r' f stopped
      cases stopped
  | cons line rest ih =>
      intro r r' f stopped
      rw [on_forM_cons, on_runLine] at stopped
      have strays := stray line (r.toWorld.announcing line)
      rcases ran : execute line (r.toWorld.announcing line) with ⟨g | o, w⟩ <;>
        rw [ran] at stopped strays
      · cases stopped
        exact strays f rfl
      · exact ih stopped

end Action

namespace Statement

/-- An outcome holds what the work of its statement has left, and no stray fault has stopped that
work. -/
theorem work_of_run {settings : Settings} {execute? : Option (String → World → Ran)}
    {s : Statement} {w w' : World} {o : Outcome} (ran : run settings execute? s w = (.ok o, w')) :
    o.children = ((Action.perform settings execute? s).on { toWorld := w }).2.children ∧
      ∀ f, ((Action.perform settings execute? s).on { toWorld := w }).1 = .error f → ¬ f.Stray := by
  rcases run_eq_ok_cases ran with ⟨r, done, rfl, rfl⟩ | ⟨f, r, code, stopped, calm, rfl, rfl⟩
  · rw [done]
    exact ⟨rfl, by simp⟩
  · rw [stopped]
    refine ⟨rfl, fun g same => ?_⟩
    cases same
    exact calm

theorem errorCode_of_refused {settings : Settings} {execute? : Option (String → World → Ran)}
    {s : Statement} {w : World} {e : CommandError} {log : List LogEntry}
    (refused : (Action.perform settings execute? s).on { toWorld := w } =
      (.error (.command e), { toWorld := { w with log } })) :
    run settings execute? s w =
      (.ok { statement := s, events := [{ level := .error, message := e.message }],
             errorCode := some e.exitCode },
       { w with log := log ++ [{ level := .error, message := e.message }] }) := by
  have same : (Action.perform settings execute? s).run.run { toWorld := w } =
      (Action.perform settings execute? s).on { toWorld := w } := rfl
  simp only [run, same, refused]
  rfl

theorem errorCode_of_not_refused {settings : Settings} {execute? : Option (String → World → Ran)}
    {s : Statement} {w w' : World} {o : Outcome}
    (goes : ∀ e, ((Action.perform settings execute? s).on { toWorld := w }).1 ≠ .error (.command e))
    (ran : run settings execute? s w = (.ok o, w')) : o.errorCode = none := by
  have same : (Action.perform settings execute? s).run.run { toWorld := w } =
      (Action.perform settings execute? s).on { toWorld := w } := rfl
  simp only [run, same] at ran
  rcases done : (Action.perform settings execute? s).on { toWorld := w } with ⟨f | _, r⟩ <;>
    rw [done] at ran goes
  · cases f with
    | command e => exact absurd rfl (goes e)
    | store f =>
        dsimp only at ran
        split at ran
        · cases ran
          rfl
        · cases ran
    | _ => cases ran
  · cases ran
    rfl

end Statement

end FileQuery
