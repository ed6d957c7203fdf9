import FileQuery.Proofs.Execution.Batch
import FileQuery.Proofs.Execution.Proper

/-! Where the session is while lines are run. Only moves change its folder, and each leads from a
normalised absolute path to another, so that every line begins and ends in a normal session and
resolves names to such paths. -/
set_option autoImplicit false
namespace FileQuery

theorem Run.blind_session : Run.Blind fun r => r.session where
  log _ _ := rfl
  reported _ _ _ _ := rfl
  store _ _ := rfl
  records _ _ := rfl
  edited _ _ _ _ _ _ := rfl

namespace Statement

variable {settings : Settings} {execute? : Option (String → World → Ran)} {s : Statement} {w : World}

theorem session_of_aboutEntries (entries : s.AboutEntries) :
    (run settings execute? s w).2.session = w.session := by
  rw [session_run]
  exact (Action.rules_keeps Run.blind_session).perform entries { toWorld := w }

/-! Moves. -/

/-- Goes to another session if there is one to go to, and else fails and stays. -/
def Moves (settings : Settings) (execute? : Option (String → World → Ran)) (s : Statement) (w : World)
    (target : Except CommandError Session) : Prop :=
  ∃ o log, run settings execute? s w =
      (.ok o, { w with session := target.toOption.getD w.session, log }) ∧ o.isSuccess = target.isOk

theorem moves_of_refused {e : CommandError}
    (refused : (Action.perform settings execute? s).on { toWorld := w } =
      (.error (.command e), { toWorld := w })) : s.Moves settings execute? w (.error e) := by
  have kept : (Action.perform settings execute? s).on { toWorld := w } =
    (.error (.command e), { toWorld := { w with log := w.log } }) := refused
  exact ⟨_, _, errorCode_of_refused kept, rfl⟩

theorem moves_of_moved {session : Session} (message : String)
    (moved : (Action.perform settings execute? s).on { toWorld := w } =
      (.ok (), ({ toWorld := { w with session } } : Run).reported .info message none)) :
    s.Moves settings execute? w (.ok session) :=
  ⟨_, _, run_of_ok moved, rfl⟩

theorem moves_use (settings : Settings) (execute? : Option (String → World → Ran)) (w : World)
    (folder : String) :
    (Statement.use folder).Moves settings execute? w (w.session.use w.store folder) := by
  cases moved : w.session.use w.store folder with
  | error e =>
      refine moves_of_refused ?_
      simp only [Action.perform, Action.use, Action.on_bind, Action.on_get, moved, Action.on_refuse]
  | ok session =>
      refine moves_of_moved ("Working folder changed to \"" ++ folder ++ "\".") ?_
      simp only [Action.perform, Action.use, Action.on_bind, Action.on_get, moved, Action.on_modify,
        Action.on_emit]

theorem moves_drop (settings : Settings) (execute? : Option (String → World → Ran)) (w : World) :
    Statement.drop.Moves settings execute? w w.session.drop := by
  cases moved : w.session.drop with
  | error e =>
      refine moves_of_refused ?_
      simp only [Action.perform, Action.drop, Action.on_bind, Action.on_get, moved, Action.on_refuse]
  | ok session =>
      refine moves_of_moved "Moved to the parent folder." ?_
      simp only [Action.perform, Action.drop, Action.on_bind, Action.on_get, moved, Action.on_modify,
        Action.on_emit]

theorem Moves.stays {target : Except CommandError Session} (moves : s.Moves settings execute? w target)
    {o : Outcome} {w' : World} (ran : run settings execute? s w = (.ok o, w'))
    (failed : o.isSuccess = false) : w'.session = w.session := by
  obtain ⟨o', log, ran', success⟩ := moves
  rw [ran'] at ran
  cases ran
  cases target with
  | error e => rfl
  | ok session =>
      rw [failed] at success
      cases success

end Statement

/-! Scripts. -/

namespace Action

variable {r : Run} {execute : String → World → Ran}

theorem normal_runLines
    (normal : ∀ line w, w.session.Normal → (execute line w).2.session.Normal) (lines : List String) :
    ∀ r : Run, r.session.Normal → ((lines.forM (runLine execute)).on r).2.session.Normal := by
  induction lines with
  | nil => exact fun r start => start
  | cons line rest ih =>
      intro r start
      have ended := normal line (r.toWorld.announcing line) start
      rw [on_forM_cons, on_runLine]
      rcases ran : execute line (r.toWorld.announcing line) with ⟨f | o, w⟩ <;> rw [ran] at ended
      · exact ended
      · exact ih _ ended

theorem normal_load {settings : Settings} {execute? : Option (String → World → Ran)}
    (normal : ∀ execute, execute? = some execute →
      ∀ line w, w.session.Normal → (execute line w).2.session.Normal)
    (name : String) (start : r.session.Normal) :
    ((load settings execute? name).on r).2.session.Normal := by
  cases isFile : r.store.isFile (r.session.resolve [name]) with
  | false =>
      rw [on_load_of_missing isFile]
      exact start
  | true =>
      cases execute? with
      | none =>
          rw [on_load_none isFile]
          cases settings.loadLimit <;> exact start
      | some execute =>
          rw [on_load_some isFile]
          cases settings.loadLimit with
          | error cause => exact start
          | ok limit =>
              cases r.store.readText (r.session.resolve [name]) settings.encoding with
              | error f => exact start
              | ok text => exact normal_runLines (normal execute rfl) _ r start

end Action

namespace Statement

theorem normal_run {settings : Settings} {execute? : Option (String → World → Ran)}
    (lines : ∀ execute, execute? = some execute →
      ∀ line w, w.session.Normal → (execute line w).2.session.Normal)
    (s : Statement) {w : World} (start : w.session.Normal) :
    (run settings execute? s w).2.session.Normal := by
  have of_moves {s : Statement} {target : Except CommandError Session}
      (moves : s.Moves settings execute? w target)
      (leads : ∀ session, target = .ok session → session.Normal) :
      (run settings execute? s w).2.session.Normal := by
    obtain ⟨o, log, ran, _⟩ := moves
    rw [ran]
    cases target with
    | error e => exact start
    | ok session => exact leads session rfl
  cases s with
  | load name =>
      have work : Action.perform settings execute? (.load name) =
          Action.load settings execute? name := rfl
      rw [session_run, work]
      exact Action.normal_load lines name start
  | use folder => exact of_moves (moves_use _ _ _ folder) fun _ moved => start.use moved
  | drop => exact of_moves (moves_drop _ _ _) fun _ moved => start.drop moved
  | _ =>
      rw [session_of_aboutEntries]
      · exact start
      · trivial

theorem normal_executeBelow (settings : Settings) (n : Nat) : ∀ (line : String) (w : World),
    w.session.Normal → (executeBelow settings n line w).2.session.Normal := by
  -- on the scripts that may still be opened: the lines of a script have one less
  induction n with
  | zero => exact fun line w start => normal_run (fun _ none => by cases none) (parse line) start
  | succ n ih =>
      intro line w start
      refine normal_run (fun execute same => ?_) (parse line) start
      rw [← Option.some.inj same]
      exact ih

theorem normal_worldAfter (settings : Settings) (n : Nat) (lines : List String) : ∀ {w : World},
    w.session.Normal → (worldAfter settings n lines w).session.Normal := by
  induction lines with
  | nil => exact fun start => start
  | cons line rest ih =>
      intro w start
      exact ih (normal_executeBelow settings n line (w.announcing line) start)

theorem executeBelow_drop (settings : Settings) (n : Nat) {line : String} (drops : parse line = .drop)
    {w : World} (normal : w.session.Normal) :
    ∃ o w', executeBelow settings n line w = (.ok o, w') ∧
      (o.isSuccess = true ↔ 0 < w.session.depth) ∧ w'.session.depth = w.session.depth - 1 ∧
      (w.session.depth = 0 → w'.session = w.session) := by
  obtain ⟨o, log, ran, success⟩ := moves_drop settings (opening settings n) w
  rw [executeBelow_eq_run, drops]
  refine ⟨o, _, ran, ?_⟩
  rw [success]
  rcases normal.drop_eq with ⟨top, same⟩ | ⟨above, same, deeper⟩ <;> rw [same]
  · refine ⟨iff_of_false (by simp [Except.isOk, Except.toBool]) (by omega), ?_, fun _ => rfl⟩
    rw [top]
    exact top
  · exact ⟨iff_of_true rfl (by omega), Nat.eq_sub_of_add_eq deeper, by omega⟩

end Statement

theorem Start.normal_at {settings : Settings} (path : List Nat) : ∀ {s s' : Start},
    s.world.session.Normal → s.at? settings path = some s' → s'.world.session.Normal := by
  induction path with
  | nil =>
      intro s s' start found
      cases found
      exact start
  | cons i path ih =>
      intro s s' start found
      rw [Start.at?, Option.bind_eq_some_iff] at found
      obtain ⟨c, child, found⟩ := found
      refine ih ?_ found
      rw [Start.child?, Option.map_eq_some_iff] at child
      obtain ⟨line, _, rfl⟩ := child
      exact Statement.normal_worldAfter settings _ _ start

namespace World

variable {w : World}

theorem normal_afterLines (settings : Settings) (lines : List String) : ∀ {w : World},
    w.session.Normal → (w.afterLines settings lines).session.Normal := by
  induction lines with
  | nil => exact fun start => start
  | cons line rest ih =>
      intro w start
      exact ih (Statement.normal_executeBelow settings settings.levels line w start)

theorem Proper.afterLines (settings : Settings) (lines : List String) (proper : w.Proper) :
    (w.afterLines settings lines).Proper :=
  ⟨normal_afterLines settings lines proper.normal,
    upholds_afterLines Store.custody_sound settings lines w proper.sound⟩

/-- A session that drops again and again leaves one name at a time, until it is at the root. -/
theorem depth_afterDrops (settings : Settings) (lines : List String)
    (drops : ∀ line ∈ lines, Statement.parse line = .drop) : ∀ {w : World}, w.session.Normal →
      (w.afterLines settings lines).session.depth = w.session.depth - lines.length := by
  induction lines with
  | nil => exact fun _ => rfl
  | cons line rest ih =>
      intro w start
      have ended : (execute settings line w).2.session.Normal :=
        Statement.normal_executeBelow settings settings.levels line w start
      have left := ih (fun other member => drops other (List.mem_cons_of_mem _ member)) ended
      obtain ⟨o, w', ran, _, above, _⟩ :=
        Statement.executeBelow_drop settings settings.levels (drops line (by simp)) start
      rw [afterLines, left, execute, ran, List.length_cons, above]
      omega

end World

/-- Wherever a program starts and whatever lines it runs, each line, those of scripts included, begins
and ends in a normal session; what is resolved in it is an absolute normalised path, and a statement
about entries stays in it. A move that reports an error stays where it is; moving to an entry and then
up leads back; and from a folder that lies `depth` names below the root exactly so many drops succeed,
while every later one stays there. -/
theorem session_stays_normal (settings : Settings) :
    (∀ (folder : String) (w : World) (lines : List String) (line : String) (path : List Nat) (s : Start),
      w.session = .start folder →
      Start.at? settings path ⟨settings.levels, line, w.afterLines settings lines⟩ = some s →
      s.world.session.Normal ∧ (s.ran settings).2.session.Normal ∧
        (∀ parts, Path.isAbsolute (s.world.session.resolve parts).toList = true ∧
          Path.normalize (s.world.session.resolve parts).toList =
            (s.world.session.resolve parts).toList) ∧
        ((Statement.parse s.line).AboutEntries → (s.ran settings).2.session = s.world.session)) ∧
    (∀ (n : Nat) (line : String) (w : World) (o : Outcome) (w' : World),
      (Statement.parse line = .drop ∨ ∃ folder, Statement.parse line = .use folder) →
      Statement.executeBelow settings n line w = (.ok o, w') → o.isSuccess = false →
      w'.session = w.session) ∧
    (∀ (n : Nat) (line line' name : String) (w : World) (o : Outcome) (w' : World),
      w.session.Normal → Path.Clean name.toList →
      Statement.parse line = .use name → Statement.parse line' = .drop →
      Statement.executeBelow settings n line w = (.ok o, w') → o.isSuccess = true →
      ∃ o' w'', Statement.executeBelow settings n line' w' = (.ok o', w'') ∧ o'.isSuccess = true ∧
        w''.session = w.session) ∧
    (∀ (w : World) (lines : List String), w.session.Normal →
      (∀ line ∈ lines, Statement.parse line = .drop) →
      ∀ i line, lines[i]? = some line →
        ∃ o w', execute settings line (w.afterLines settings (lines.take i)) = (.ok o, w') ∧
          (o.isSuccess = true ↔ i < w.session.depth) ∧
          (w.session.depth ≤ i → w'.session = (w.afterLines settings (lines.take i)).session)) := by
  refine ⟨?_, ?_, ?_, ?_⟩
  · intro folder w lines line path s starts found
    have start : w.session.Normal := starts ▸ Session.normal_start folder
    have normal : s.world.session.Normal :=
      Start.normal_at path (World.normal_afterLines settings lines start) found
    refine ⟨normal, Statement.normal_executeBelow settings _ _ _ normal, normal.resolved, ?_⟩
    intro entries
    rw [Start.ran, Statement.executeBelow_eq_run]
    exact Statement.session_of_aboutEntries entries
  · intro n line w o w' moves ran failed
    rw [Statement.executeBelow_eq_run] at ran
    rcases moves with parsed | ⟨folder, parsed⟩ <;> rw [parsed] at ran
    · exact (Statement.moves_drop _ _ _).stays ran failed
    · exact (Statement.moves_use _ _ _ folder).stays ran failed
  · intro n line line' name w o w' normal clean uses drops ran success
    rw [Statement.executeBelow_eq_run, uses] at ran
    rw [Statement.executeBelow_eq_run, drops]
    obtain ⟨o₁, log, ran₁, moved⟩ :=
      Statement.moves_use settings (Statement.opening settings n) w name
    rw [ran₁] at ran
    cases ran
    rw [success] at moved
    rcases led : w.session.use w.store name with e | session <;> rw [led] at moved
    · cases moved
    · obtain ⟨o₂, log₂, ran₂, back⟩ :=
        Statement.moves_drop settings (Statement.opening settings n) { w with session, log }
      rw [normal.drop_use clean led] at ran₂ back
      exact ⟨o₂, _, ran₂, back, rfl⟩
  · intro w lines normal drops i line stands
    have before : ∀ other ∈ lines.take i, Statement.parse other = .drop :=
      fun other member => drops other (List.mem_of_mem_take member)
    have depth := World.depth_afterDrops settings _ before normal
    have there := World.normal_afterLines settings (lines.take i) normal
    have bound : i < lines.length := (List.getElem?_eq_some_iff.mp stands).1
    rw [List.length_take, Nat.min_eq_left bound.le] at depth
    generalize w.afterLines settings (lines.take i) = v at depth there
    obtain ⟨o, w', ran, success, _, top⟩ := Statement.executeBelow_drop settings settings.levels
      (drops line (List.mem_of_getElem? stands)) there
    refine ⟨o, w', ran, ?_, fun late => top (by omega)⟩
    rw [success]
    omega

def folderBelow : World where
  store := { now := ⟨0⟩, entries := [(["work", "s.fql"], .file ⟨#[85, 83, 69, 32, 34, 97, 34]⟩ 420 ⟨0⟩),
    (["work", "a"], .folder 493), (["work"], .folder 493), ([], .folder 493)] }
  session := .start ""

theorem session_below_script :
    (∃ s, Start.at? {} [0] ⟨Settings.levels {}, "LOAD \"s.fql\"",
        folderBelow.afterLines {} ["DROP", "USE \"work\""]⟩ = some s ∧ s.line = "USE \"a\"" ∧
      s.world.session.Normal ∧ (s.ran {}).2.session.Normal) ∧
    (∃ o w', execute {} "USE \"b\"" folderBelow = (.ok o, w') ∧ o.isSuccess = false ∧
      w'.session = folderBelow.session) ∧
    (∃ o w' o' w'', execute {} "USE \"a\"" folderBelow = (.ok o, w') ∧
      execute {} "DROP" w' = (.ok o', w'') ∧ w''.session = folderBelow.session) ∧
    (∃ o w', execute {} "DROP" (folderBelow.afterLines {} ["DROP"]) = (.ok o, w') ∧
      o.isSuccess = false ∧ w'.session = (folderBelow.afterLines {} ["DROP"]).session) := by
  obtain ⟨stays_normal, stays, returns, drops⟩ := session_stays_normal {}
  have start : folderBelow.session.Normal := Session.normal_start ""
  have drop : Statement.parse "DROP" = .drop := by decide +kernel
  refine ⟨?_, ?_, ?_, ?_⟩
  · have stands : ((Start.at? {} [0] ⟨Settings.levels {}, "LOAD \"s.fql\"",
        folderBelow.afterLines {} ["DROP", "USE \"work\""]⟩).map (·.line)) =
          some "USE \"a\"" := by decide +kernel
    obtain ⟨s, found, line⟩ := Option.map_eq_some_iff.mp stands
    obtain ⟨normal, ended, _⟩ := stays_normal "" folderBelow _ _ [0] s rfl found
    exact ⟨s, found, line, normal, ended⟩
  · have fails : (execute {} "USE \"b\"" folderBelow).1.toOption.map (·.isSuccess) =
        some false := by decide +kernel
    rcases ran : execute {} "USE \"b\"" folderBelow with ⟨f | o, w'⟩ <;> rw [ran] at fails
    · cases fails
    · have failed : o.isSuccess = false := Option.some.inj fails
      exact ⟨o, w', rfl, failed, stays _ _ _ o w' (.inr ⟨"b", by decide +kernel⟩) ran failed⟩
  · have goes : (execute {} "USE \"a\"" folderBelow).1.toOption.map (·.isSuccess) =
        some true := by decide +kernel
    rcases ran : execute {} "USE \"a\"" folderBelow with ⟨f | o, w'⟩ <;> rw [ran] at goes
    · cases goes
    · have clean : Path.Clean (String.toList "a") := by decide +kernel
      obtain ⟨o', w'', ran', _, back⟩ := returns _ _ "DROP" "a" folderBelow o w' start clean
        (by decide +kernel) drop ran (Option.some.inj goes)
      exact ⟨o, w', o', w'', rfl, ran', back⟩
  · obtain ⟨o, w', ran, success, late⟩ := drops folderBelow ["DROP", "DROP"] start
      (by simp [drop]) 1 "DROP" rfl
    have depth : folderBelow.session.depth = 1 := by decide +kernel
    refine ⟨o, w', ran, ?_, late depth.le⟩
    rw [← Bool.not_eq_true, success, depth]
    decide

end FileQuery
