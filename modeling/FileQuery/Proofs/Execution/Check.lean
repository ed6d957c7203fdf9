import FileQuery.Proofs.Execution.Script

/-! What is said of a whole run. The three folds over the trees of outcomes, that for the exit code and
those for the two counts, go through the outcomes in the order in which their statements begin. A
statement that is aborted runs no other, so those come in the same order as they end. -/
set_option autoImplicit false
namespace FileQuery

namespace Outcome

mutual

/-- The outcomes in a tree, in the order in which their statements begin. -/
def begun : Outcome → List Outcome
  | ⟨statement, events, records, children, errorCode⟩ =>
    ⟨statement, events, records, children, errorCode⟩ :: begunAll children

def begunAll : List Outcome → List Outcome
  | [] => []
  | o :: os => o.begun ++ begunAll os

end

mutual

/-- The same outcomes, in the order in which their statements end. -/
def ended : Outcome → List Outcome
  | ⟨statement, events, records, children, errorCode⟩ =>
    endedAll children ++ [⟨statement, events, records, children, errorCode⟩]

def endedAll : List Outcome → List Outcome
  | [] => []
  | o :: os => o.ended ++ endedAll os

end

/-- How many events of a level some outcomes report themselves. -/
def tally (l : Level) (outcomes : List Outcome) : Nat :=
  countEvents l (outcomes.flatMap (·.events))

theorem begun_eq (o : Outcome) : o.begun = o :: begunAll o.children := by
  cases o
  rw [begun]

theorem ended_eq (o : Outcome) : o.ended = endedAll o.children ++ [o] := by
  cases o
  rw [ended]

/-! The folds. -/

mutual

theorem exitCode_eq_findSome? : ∀ o : Outcome, o.exitCode = o.begun.findSome? (·.errorCode)
  | ⟨_, _, _, children, code⟩ => by
      rw [exitCode, begun, firstExitCode_eq_findSome? children, List.findSome?_cons]
      cases code <;> rfl

theorem firstExitCode_eq_findSome? : ∀ os : List Outcome,
    firstExitCode os = (begunAll os).findSome? (·.errorCode)
  | [] => by rw [firstExitCode, begunAll, List.findSome?_nil]
  | o :: os => by
      rw [firstExitCode, begunAll, List.findSome?_append, exitCode_eq_findSome? o,
        firstExitCode_eq_findSome? os]

end

theorem tally_append (l : Level) (os os' : List Outcome) :
    tally l (os ++ os') = tally l os + tally l os' := by
  rw [tally, tally, tally, countEvents, List.flatMap_append, List.countP_append]
  rfl

mutual

theorem count_eq_tally (l : Level) : ∀ o : Outcome, o.count l = tally l o.begun
  | ⟨_, events, _, children, _⟩ => by
      rw [count, begun, countAll_eq_tally l children, tally, tally, List.flatMap_cons, countEvents,
        countEvents, countEvents, List.countP_append]

theorem countAll_eq_tally (l : Level) : ∀ os : List Outcome, countAll l os = tally l (begunAll os)
  | [] => by rw [countAll, begunAll]; rfl
  | o :: os => by
      rw [countAll, begunAll, tally_append, count_eq_tally l o, countAll_eq_tally l os]

end

theorem foldr_count_eq_tally (l : Level) (os : List Outcome) :
    (os.map (count l)).foldr (· + ·) 0 = tally l (begunAll os) := by
  induction os with
  | nil => rw [begunAll]; rfl
  | cons o os ih =>
      rw [List.map_cons, List.foldr_cons, ih, begunAll, tally_append, count_eq_tally]

theorem tally_eq_zero {l : Level} {os : List Outcome} :
    tally l os = 0 ↔ ∀ o ∈ os, ∀ e ∈ o.events, e.level ≠ l := by
  rw [tally, countEvents, List.countP_eq_zero]
  constructor
  · intro none o member e own same
    exact none e (List.mem_flatMap.mpr ⟨o, member, own⟩) (beq_iff_eq.mpr same)
  · intro none e member same
    obtain ⟨o, member, own⟩ := List.mem_flatMap.mp member
    exact none o member e own (beq_iff_eq.mp same)

/-! The places, and the two orders. -/

mutual

theorem induct {P : Outcome → Prop} (node : ∀ o, (∀ c ∈ o.children, P c) → P o) : ∀ o, P o
  | ⟨_, _, _, children, _⟩ => node _ (inductAll node children)

theorem inductAll {P : Outcome → Prop} (node : ∀ o, (∀ c ∈ o.children, P c) → P o) :
    ∀ (os : List Outcome), ∀ o ∈ os, P o
  | [] => by simp
  | o :: os => List.forall_mem_cons.mpr ⟨induct node o, inductAll node os⟩

end

theorem mem_begunAll {node : Outcome} {os : List Outcome} :
    node ∈ begunAll os ↔ ∃ o ∈ os, node ∈ o.begun := by
  induction os with
  | nil => simp [begunAll]
  | cons o os ih => simp [begunAll, ih]

theorem mem_begun {node : Outcome} (o : Outcome) :
    node ∈ o.begun ↔ ∃ path, o.at? path = some node := by
  induction o using induct with
  | node o below =>
      rw [begun_eq, List.mem_cons, mem_begunAll]
      constructor
      · rintro (rfl | ⟨c, child, member⟩)
        · exact ⟨[], rfl⟩
        · obtain ⟨path, found⟩ := (below c child).mp member
          obtain ⟨i, there⟩ := List.mem_iff_getElem?.mp child
          exact ⟨i :: path, by rw [at?, there]; exact found⟩
      · rintro ⟨_ | ⟨i, path⟩, found⟩
        · cases found
          exact .inl rfl
        · obtain ⟨c, there, found⟩ := Option.bind_eq_some_iff.mp found
          have child := List.mem_of_getElem? there
          exact .inr ⟨c, child, (below c child).mpr ⟨path, found⟩⟩

theorem filter_begunAll {p : Outcome → Bool} {os : List Outcome}
    (each : ∀ o ∈ os, o.begun.filter p = o.ended.filter p) :
    (begunAll os).filter p = (endedAll os).filter p := by
  induction os with
  | nil => rw [begunAll, endedAll]
  | cons o os ih =>
      rw [List.forall_mem_cons] at each
      rw [begunAll, endedAll, List.filter_append, List.filter_append, each.1, ih each.2]

/-- Outcomes that have none below them come in one order, as they begin and as they end. -/
theorem filter_begun {p : Outcome → Bool} (o : Outcome)
    (alone : ∀ node ∈ o.begun, p node = true → node.children = []) :
    o.begun.filter p = o.ended.filter p := by
  induction o using induct with
  | node o below =>
      rw [begun_eq, List.forall_mem_cons] at alone
      obtain ⟨own, others⟩ := alone
      rw [begun_eq, ended_eq, List.filter_cons, List.filter_append, List.filter_singleton]
      by_cases chosen : p o = true
      · rw [own chosen, if_pos chosen]
        simp [chosen, begunAll, endedAll]
      · rw [if_neg chosen]
        simp only [chosen]
        rw [filter_begunAll fun c child => below c child fun node member =>
          others node (mem_begunAll.mpr ⟨c, child, member⟩)]
        simp

/-! The check. -/

theorem map_findSome?_exitCode (os : List Outcome) :
    (os.findSome? fun o => o.exitCode.map (o.statement.title, ·)).map Prod.snd =
      (begunAll os).findSome? (·.errorCode) := by
  induction os with
  | nil => rw [begunAll]; rfl
  | cons o os ih =>
      rw [begunAll, List.findSome?_append, ← exitCode_eq_findSome?, ← ih, List.findSome?_cons]
      cases o.exitCode <;> rfl

theorem check_of_aborted {os : List Outcome} {code : Int}
    (first : (begunAll os).findSome? (·.errorCode) = some code) :
    ∃ title, check os = .error (.statementFailed title code) := by
  rw [← map_findSome?_exitCode, Option.map_eq_some_iff] at first
  obtain ⟨⟨title, code⟩, found, rfl⟩ := first
  exact ⟨title, by rw [check, found]⟩

theorem check_of_whole {os : List Outcome} (whole : (begunAll os).findSome? (·.errorCode) = none) :
    check os =
      let failed := tally .error (begunAll os)
      let succeeded := tally .success (begunAll os)
      if failed = 0 then .ok ()
      else if succeeded = 0 then
        .error (.general s!"{failed} operation(s) failed" ExitCode.general)
      else
        .error (.partialSuccess s!"{failed} operation(s) failed, {succeeded} succeeded"
          succeeded failed) := by
  rw [← map_findSome?_exitCode, Option.map_eq_none_iff] at whole
  rw [check, whole, ← foldr_count_eq_tally, ← foldr_count_eq_tally]
  rfl

/-- An outcome with an exit code reports an error and has no other below it. -/
def AbortsAlone (o : Outcome) : Prop :=
  o.errorCode.isSome = true → (∃ e ∈ o.events, e.level = .error) ∧ o.children = []

/-- A run in which every aborted statement reports an error has passed if none is reported. -/
theorem check_eq_ok_iff {os : List Outcome} (alone : ∀ node ∈ begunAll os, node.AbortsAlone) :
    check os = .ok () ↔ ∀ node ∈ begunAll os, ∀ e ∈ node.events, e.level ≠ .error := by
  rw [← tally_eq_zero]
  cases first : (begunAll os).findSome? (·.errorCode) with
  | none =>
      rw [check_of_whole first]
      dsimp only
      split
      · next zero => exact iff_of_true rfl zero
      · next some =>
          refine iff_of_false ?_ some
          split <;> simp
  | some code =>
      obtain ⟨node, member, set⟩ := List.exists_of_findSome?_eq_some first
      obtain ⟨title, same⟩ := check_of_aborted first
      rw [same]
      refine iff_of_false (by simp) fun none => ?_
      obtain ⟨⟨e, own, error⟩, _⟩ := alone node member (by rw [set]; rfl)
      exact tally_eq_zero.mp none node member e own error

end Outcome

theorem mem_of_runEach {execute : String → World → Ran} (lines : List String) :
    ∀ {w w' : World} {os : List Outcome}, runEach execute lines w = (.ok os, w') →
      ∀ o ∈ os, ∃ line v v', execute line v = (.ok o, v') := by
  induction lines with
  | nil =>
      intro w w' os ran
      cases ran
      simp
  | cons line rest ih =>
      intro w w' os ran
      rw [runEach] at ran
      rcases first : execute line w with ⟨f | o, w₁⟩ <;> rw [first] at ran
      · cases ran
      · dsimp only at ran
        rcases left : runEach execute rest w₁ with ⟨f | os', w₂⟩ <;> rw [left] at ran
        · cases ran
        · cases ran
          exact List.forall_mem_cons.mpr ⟨⟨line, w, w₁, first⟩, ih left⟩

theorem Outcome.abortsAlone_of_ran {settings : Settings}
    (calm : ∀ e, settings.style ≠ .error (.command e)) {lines : List String} {w w' : World}
    {os : List Outcome} (ran : runEach (execute settings) lines w = (.ok os, w')) :
    ∀ node ∈ begunAll os, node.AbortsAlone := by
  intro node member
  obtain ⟨o, top, member⟩ := mem_begunAll.mp member
  obtain ⟨path, found⟩ := (mem_begun o).mp member
  obtain ⟨line, v, v', own⟩ := mem_of_runEach lines ran o top
  obtain ⟨_, _, _, _, ⟨_, e, _, _, rfl⟩ | ⟨_, none⟩⟩ := Start.outcome_at calm own found
  · exact fun _ => ⟨⟨_, List.mem_singleton_self _, rfl⟩, rfl⟩
  · intro set
    rw [none] at set
    cases set

/-- The check of a run tells the truth about all of it, scripts in scripts included. It passes if no
error is reported anywhere. Else, if a statement was aborted, it fails with the code of the first one;
first is as they begin and as they end. Else it fails with the exact numbers of successes and errors if
there is a success, and in general if there is none. -/
theorem check_tells {libraries : Libraries} {config : Config.Section} {settings : Settings}
    (configured : Config.toSettings libraries config = .ok settings) {lines : List String}
    {w w' : World} {os : List Outcome} (ran : runEach (execute settings) lines w = (.ok os, w')) :
    (Outcome.check os = .ok () ↔
      ∀ o ∈ os, ∀ path node, o.at? path = some node → ∀ e ∈ node.events, e.level ≠ .error) ∧
    (Outcome.begunAll os).filter (·.errorCode.isSome) =
      (Outcome.endedAll os).filter (·.errorCode.isSome) ∧
    (∀ code, (Outcome.begunAll os).findSome? (·.errorCode) = some code →
      ∃ title, Outcome.check os = .error (.statementFailed title code)) ∧
    ((Outcome.begunAll os).findSome? (·.errorCode) = none →
      0 < Outcome.tally .error (Outcome.begunAll os) →
      (0 < Outcome.tally .success (Outcome.begunAll os) →
        ∃ message, Outcome.check os = .error (.partialSuccess message
          (Outcome.tally .success (Outcome.begunAll os)) (Outcome.tally .error (Outcome.begunAll os)))) ∧
      (Outcome.tally .success (Outcome.begunAll os) = 0 →
        ∃ message, Outcome.check os = .error (.general message ExitCode.general))) := by
  have alone := Outcome.abortsAlone_of_ran (Config.style_toSettings configured) ran
  refine ⟨?_, ?_, fun code first => Outcome.check_of_aborted first, fun whole some => ?_⟩
  · rw [Outcome.check_eq_ok_iff alone]
    constructor
    · exact fun none o top path node found =>
        none node (Outcome.mem_begunAll.mpr ⟨o, top, (Outcome.mem_begun o).mpr ⟨path, found⟩⟩)
    · intro none node member
      obtain ⟨o, top, member⟩ := Outcome.mem_begunAll.mp member
      obtain ⟨path, found⟩ := (Outcome.mem_begun o).mp member
      exact none o top path node found
  · exact Outcome.filter_begunAll fun o top => Outcome.filter_begun o fun node member set =>
      (alone node (Outcome.mem_begunAll.mpr ⟨o, top, member⟩) set).2
  · rw [Outcome.check_of_whole whole]
    dsimp only
    rw [if_neg some.ne']
    constructor
    · intro done
      rw [if_neg done.ne']
      exact ⟨_, rfl⟩
    · intro none
      rw [if_pos none]
      exact ⟨_, rfl⟩

/-- A script is aborted in its line, and a folder is made where a file is missing. -/
theorem check_tells_abort :
    (∃ os w' title, runEach (execute {}) ["LOAD \"s.fql\""] missingFolder = (.ok os, w') ∧
      Outcome.check os = .error (.statementFailed title 65)) ∧
    (∃ os w' message, runEach (execute {}) ["CREATE FOLDER \"a\"", "READ FILE \"b\""] missingFolder =
        (.ok os, w') ∧
      Outcome.check os = .error (.partialSuccess message 1 1)) := by
  have configured : Config.toSettings .standard [] = .ok {} := rfl
  constructor
  · have aborts : (runEach (execute {}) ["LOAD \"s.fql\""] missingFolder).1.toOption.bind (fun os =>
        (Outcome.begunAll os).findSome? (·.errorCode)) = some 65 := by decide +kernel
    rcases ran : runEach (execute {}) ["LOAD \"s.fql\""] missingFolder with ⟨f | os, w'⟩ <;>
      rw [ran] at aborts
    · cases aborts
    · obtain ⟨_, _, aborted, _⟩ := check_tells configured ran
      obtain ⟨title, failed⟩ := aborted 65 aborts
      exact ⟨os, w', title, rfl, failed⟩
  · have counts : (runEach (execute {}) ["CREATE FOLDER \"a\"", "READ FILE \"b\""]
        missingFolder).1.toOption.map (fun os =>
          ((Outcome.begunAll os).findSome? (·.errorCode),
            Outcome.tally .success (Outcome.begunAll os),
            Outcome.tally .error (Outcome.begunAll os))) = some (none, 1, 1) := by decide +kernel
    rcases ran : runEach (execute {}) ["CREATE FOLDER \"a\"", "READ FILE \"b\""] missingFolder with
      ⟨f | os, w'⟩ <;> rw [ran] at counts
    · cases counts
    · obtain ⟨whole, counts⟩ := Prod.ext_iff.mp (Option.some.inj counts)
      obtain ⟨successes, errors⟩ := Prod.ext_iff.mp counts
      dsimp only at whole successes errors
      obtain ⟨_, _, _, mixed⟩ := check_tells configured ran
      obtain ⟨message, failed⟩ := (mixed whole (by omega)).1 (by omega)
      rw [successes, errors] at failed
      exact ⟨os, w', message, rfl, failed⟩

end FileQuery
