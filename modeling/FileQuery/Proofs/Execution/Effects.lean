import FileQuery.Proofs.Execution.Direct
import FileQuery.Proofs.Execution.SessionFolder
import FileQuery.Proofs.Execution.TextFile

/-! What statements change. Most leave the store as it is, however they end, and most leave the session
where it is; one that writes a text changes the file that its path leads to, and one that sets a mode
the mode of its entry. A script changes what its lines change. -/
set_option autoImplicit false
namespace FileQuery

open Store (Writing)

/-- Whether a statement looks at the store and changes nothing in it. -/
def Statement.OnlyLooks : Statement → Prop
  | .unknown .. | .read _ | .list _ | .count _ | .use _ | .drop | .select _ _ _ none => True
  | _ => False

namespace Action

theorem steps_keep_store : Steps (Keeps fun r => r.store) where
  pure _ _ := rfl
  throw _ _ := rfl
  bind := Keeps.bind
  tryCatch := Keeps.tryCatch
  get _ rest r := rest r r
  emit _ _ _ _ := rfl
  note _ _ := rfl
  records _ _ := rfl

theorem use_keeps_store (folder : String) : Keeps (fun r => r.store) (use folder) := by
  intro r
  rw [use, on_bind, on_get]
  dsimp only
  cases r.session.use r.store folder <;> rfl

theorem drop_keeps_store : Keeps (fun r => r.store) drop := by
  intro r
  rw [drop, on_bind, on_get]
  dsimp only
  cases r.session.drop <;> rfl

theorem keeps_store_of_onlyLooks {settings : Settings} {execute? : Option (String → World → Ran)}
    {s : Statement} (looks : s.OnlyLooks) : Keeps (fun r => r.store) (perform settings execute? s) := by
  have steps := steps_keep_store
  cases s with
  | unknown text reason => exact steps.refuse _
  | read name => exact steps.readFile name settings
  | list kind => exact steps.list kind
  | count kind => exact steps.count kind
  | use folder => exact use_keeps_store folder
  | drop => exact drop_keeps_store
  | select kind source order into =>
      cases into with
      | none => exact steps.selectShown kind source order settings
      | some path => exact looks.elim
  | _ => exact looks.elim

/-! Modes and new entries. -/

section
variable {settings : Settings} {r : Run} {name : String}

theorem finishes_chmod (mode : String) (held : r.store.isPresent (r.session.resolve [name]) = true) :
    Finishes (.ok (Store.setMode (r.session.resolve [name])
      ((Text.readOctal? mode.toList).getD 0).toNat)) (chmod name mode) r := by
  refine Finishes.next (on_resolve _) rfl (Finishes.next (on_present _ _) rfl ?_)
  have held' : r.store.holds (r.session.resolve [name]) none = true := held
  rw [held', if_pos rfl]
  exact finishes _ _

theorem chmod_of_absent (mode : String)
    (absent : r.store.isPresent (r.session.resolve [name]) = false) :
    ((chmod name mode).on r).2.store = r.store := by
  have absent' : r.store.holds (r.session.resolve [name]) none = false := absent
  simp only [chmod, on_bind, on_resolve, on_present, absent', Bool.false_eq_true, if_false, on_emit]
  rfl

/-- What is said of an entry that is there already. -/
def existing (kind : Kind) (name : String) : Event :=
  { level := .warning, message := kind.label ++ " \"" ++ name ++ "\" already exists." }

theorem create_of_present (kind : Kind)
    (held : r.store.isPresent (r.session.resolve [name]) = true) :
    (create kind name settings).on r =
      (.ok (), r.reported .warning (existing kind name).message none) := by
  have held' : r.store.holds (r.session.resolve [name]) none = true := held
  simp only [create, on_bind, on_resolve, on_present, held', if_true, on_emit]
  rfl

def creation (settings : Settings) (path : String) : Kind → Store.Change
  | .folder => Store.makeFolder path
  | .file => Store.writeText path [] settings.encoding

theorem create_of_absent (kind : Kind)
    (absent : r.store.isPresent (r.session.resolve [name]) = false) :
    (create kind name settings).on r =
      (finish (creation settings (r.session.resolve [name]) kind)
        (kind.label ++ " \"" ++ name ++ "\" created.")).on r := by
  have absent' : r.store.holds (r.session.resolve [name]) none = false := absent
  cases kind <;>
    simp only [create, on_bind, on_resolve, on_present, absent', Bool.false_eq_true, if_false, finish,
      creation]

end

end Action

namespace Statement

variable {settings : Settings} {execute? : Option (String → World → Ran)} {s : Statement} {w : World}

theorem store_of_onlyLooks (looks : s.OnlyLooks) :
    (run settings execute? s w).2.store = w.store := by
  rw [store_run]
  exact Action.keeps_store_of_onlyLooks looks { toWorld := w }

/-! Texts. -/

/-- The store that is left by a change, unless something stops it before. -/
def storeAfter (s : Store) : Except Fault Store.Change → Store
  | .ok c => (c s).2
  | .error _ => s

theorem store_after_finish {c? : Except Fault Store.Change}
    (ends : Action.Finishes c? (Action.perform settings execute? s) { toWorld := w }) :
    (run settings execute? s w).2.store = storeAfter w.store c? := by
  obtain ⟨r, kept, ends⟩ := ends
  have start : r.store = w.store := kept
  rw [store_run]
  cases c? with
  | error f =>
      rw [ends]
      exact kept
  | ok c =>
      obtain ⟨message, same⟩ := ends
      rw [same, Action.on_finish, start, storeAfter]
      rcases c w.store with ⟨_ | _, store⟩ <;> rfl

end Statement

namespace Store

/-- Whether nothing is changed but the file that a path leads to, or would be made at. -/
def OnlyWrites (path : String) (s t : Store) : Prop :=
  t = s ∨ ∃ place old mode bytes, s.target path = .ok (place, old, mode) ∧
    t = s.putBytes place mode bytes

theorem onlyWrites_change (x : Writing) (encoding : Encoding) (s : Store) :
    OnlyWrites x.path s (x.change encoding s).2 := by
  rcases opens : s.opened x.path encoding with f | ⟨place, old, mode⟩
  · rw [Writing.change_of_not_opened opens]
    exact .inl rfl
  · have file := Writing.target_of_opened opens
    cases encodes : x.encoded encoding old with
    | error f =>
        rw [Writing.change_of_not_encoded opens encodes]
        exact .inr ⟨place, old, mode, _, file, rfl⟩
    | ok bytes =>
        rw [Writing.change_of_encoded opens encodes]
        exact .inr ⟨place, old, mode, _, file, rfl⟩

/-- Whether nothing is changed but the mode of the entry that a path leads to, and when it was last
changed at all. -/
def OnlySetsMode (path : String) (s t : Store) : Prop :=
  t = s ∨ ∃ place e mode, s.stat true path = .ok (place, e) ∧
    t = (s.put place (Entry.withMode mode e)).setTimes place ⟨(s.timesAt place).modified, s.now⟩

theorem onlySetsMode_setMode (path : String) (mode : Nat) (s : Store) :
    OnlySetsMode path s (setMode path mode s).2 := by
  cases found : s.stat true path with
  | error f =>
      left
      simp [setMode, Change.ofExcept, found, bind, Except.bind]
  | ok entry =>
      obtain ⟨place, e⟩ := entry
      refine .inr ⟨place, e, mode, found, ?_⟩
      simp only [setMode, Change.ofExcept, found, bind, Except.bind]
      rfl

end Store

namespace Statement

variable {settings : Settings} {execute? : Option (String → World → Ran)} {s : Statement} {w : World}

theorem onlyWrites_run {name : String} (writes : s.destination? = some name) :
    w.store.OnlyWrites (w.session.resolve [name]) (run settings execute? s w).2.store := by
  rcases finishes_perform settings execute? w writes with
    ⟨x, encoding, _, path, _, ends⟩ | ⟨_, f, ends⟩
  · rw [store_after_finish ends, ← path]
    exact Store.onlyWrites_change x encoding w.store
  · rw [store_after_finish ends]
    exact .inl rfl

/-! Modes and new entries. -/

theorem onlySetsMode_run (name mode : String) :
    w.store.OnlySetsMode (w.session.resolve [name])
      (run settings execute? (.chmod name mode) w).2.store := by
  have work : Action.perform settings execute? (.chmod name mode) = Action.chmod name mode := rfl
  cases held : w.store.isPresent (w.session.resolve [name]) with
  | false =>
      rw [store_run, work]
      exact .inl (Action.chmod_of_absent (r := { toWorld := w }) mode held)
  | true =>
      have ends := Action.finishes_chmod (r := { toWorld := w }) mode held
      rw [← work] at ends
      rw [store_after_finish ends, storeAfter]
      exact Store.onlySetsMode_setMode _ _ w.store

section
variable {kind : Kind} {name : String}

theorem run_create_of_present (held : w.store.isPresent (w.session.resolve [name]) = true) :
    run settings execute? (.create kind name) w =
      .reporting (.create kind name) (Action.existing kind name) w.store w := by
  have work : Action.perform settings execute? (.create kind name) =
    Action.create kind name settings := rfl
  refine run_of_reported ?_
  rw [work]
  exact Action.create_of_present (r := { toWorld := w }) kind held

theorem no_warning_of_finish {c : Store.Change} {message : String}
    (ends : (Action.perform settings execute? s).on { toWorld := w } =
      (Action.finish c message).on { toWorld := w })
    {o : Outcome} {v : World} (ran : run settings execute? s w = (.ok o, v)) :
    ∀ e ∈ o.events, e.level ≠ .warning := by
  have start : ({ toWorld := w } : Run).store = w.store := rfl
  rw [Action.on_finish, start] at ends
  rcases run_eq_ok_cases ran with ⟨r, done, rfl, _⟩ | ⟨f, r, code, stopped, _, rfl, _⟩
  · rw [ends] at done
    rcases changed : c w.store with ⟨f | _, store⟩ <;> rw [changed] at done <;> cases done
    simp [outcome, Run.reported]
  · rw [ends] at stopped
    rcases changed : c w.store with ⟨f | _, store⟩ <;> rw [changed] at stopped <;> cases stopped
    simp [outcome, Run.reported]

/-- A new entry is warned of just if there is one of its name, and then nothing changes. -/
theorem create_warns {o : Outcome} {v : World}
    (ran : run settings execute? (.create kind name) w = (.ok o, v))
    (warned : ∃ e ∈ o.events, e.level = .warning) :
    w.store.isPresent (w.session.resolve [name]) = true ∧ v.store = w.store := by
  cases held : w.store.isPresent (w.session.resolve [name]) with
  | true =>
      rw [run_create_of_present held] at ran
      cases ran
      exact ⟨rfl, rfl⟩
  | false =>
      obtain ⟨e, told, warning⟩ := warned
      have work : Action.perform settings execute? (.create kind name) =
        Action.create kind name settings := rfl
      have made : (Action.create kind name settings).on { toWorld := w } = _ :=
        Action.create_of_absent kind held
      rw [← work] at made
      exact absurd warning (no_warning_of_finish made ran e told)

end

end Statement

/-! Scripts. -/

open Statement (executeBelow parse)

/-- The lines that are run for a line, which is one of them: those of the script that it loads, each in
the world that those before it leave, and those that are run for them. -/
inductive Start.Reaches (settings : Settings) : Start → Start → Prop where
  | self (s : Start) : Reaches settings s s
  | line {n : Nat} {line name text l : String} {w v : World} {limit : LoadLimit}
      {before behind : List String} {os : List Outcome} {t : Start}
      (loads : parse line = .load name)
      (isFile : w.store.isFile (w.session.resolve [name]) = true)
      (limited : settings.loadLimit = .ok limit)
      (read : w.store.readText (w.session.resolve [name]) settings.encoding = .ok text)
      (there : scriptLines text = before ++ l :: behind)
      (reached : runEach (announced (executeBelow settings n)) before w = (.ok os, v))
      (below : Reaches settings ⟨n, l, v.announcing l⟩ t) : Reaches settings ⟨n + 1, line, w⟩ t

/-- Lines of which each that is reached keeps the store keep it all together. -/
theorem store_runEach {execute : String → World → Ran} (lines : List String) : ∀ {w : World},
    (∀ before l behind os v, lines = before ++ l :: behind →
      runEach execute before w = (.ok os, v) → (execute l v).2.store = v.store) →
    (runEach execute lines w).2.store = w.store := by
  induction lines with
  | nil => exact fun _ => rfl
  | cons line rest ih =>
      intro w kept
      have first := kept [] line rest [] w rfl rfl
      rw [runEach]
      rcases ran : execute line w with ⟨f | o, w'⟩ <;> rw [ran] at first
      · exact first
      · have others : (runEach execute rest w').2.store = w'.store := by
          refine ih fun before l behind os v split reached => ?_
          refine kept (line :: before) l behind (o :: os) v (by rw [split]; rfl) ?_
          rw [runEach, ran]
          dsimp only
          rw [reached]
        have together := others.trans first
        dsimp only
        rcases left : runEach execute rest w' with ⟨f | os, w''⟩ <;> rw [left] at together
        · exact together
        · exact together

namespace Statement

variable {settings : Settings} {w : World} {name : String}

theorem store_load_none : (run settings none (.load name) w).2.store = w.store := by
  cases isFile : w.store.isFile (w.session.resolve [name]) with
  | false => rw [run_load_missing isFile]; rfl
  | true =>
      cases limited : settings.loadLimit with
      | error cause => rw [run_load_illTyped isFile limited]
      | ok limit => rw [run_load_tooDeep isFile limited]; rfl

theorem store_failedWith (s : Statement) (f : Store.Fault) (w : World) :
    (s.failedWith f w).2.store = w.store := by
  rw [failedWith]
  split <;> rfl

theorem store_ranScript (name text : String) (ran : Except Fault (List Outcome) × World) :
    (ranScript name text ran).2.store = ran.2.store := by
  rcases ran with ⟨_ | _, v⟩ <;> rfl

theorem store_load_some {n : Nat} (lines : ∀ limit text,
      w.store.isFile (w.session.resolve [name]) = true → settings.loadLimit = .ok limit →
      w.store.readText (w.session.resolve [name]) settings.encoding = .ok text →
      (runEach (announced (executeBelow settings n)) (scriptLines text) w).2.store = w.store) :
    (run settings (some (executeBelow settings n)) (.load name) w).2.store = w.store := by
  cases isFile : w.store.isFile (w.session.resolve [name]) with
  | false => rw [run_load_missing isFile]; rfl
  | true =>
      cases limited : settings.loadLimit with
      | error cause => rw [run_load_illTyped isFile limited]
      | ok limit =>
          cases read : w.store.readText (w.session.resolve [name]) settings.encoding with
          | error f =>
              rw [run_load_unreadable isFile limited read]
              exact store_failedWith _ f w
          | ok text =>
              rw [run_load_read isFile limited stray_of_executeBelow read, store_ranScript]
              exact lines limit text isFile limited read

end Statement

/-- A line for which only lines are run that look at the store, or load scripts, keeps it. -/
theorem Start.store_of_reaches {settings : Settings} {n : Nat} : ∀ {line : String} {w : World},
    (∀ t, Reaches settings ⟨n, line, w⟩ t →
      (parse t.line).OnlyLooks ∨ ∃ name, parse t.line = .load name) →
    (executeBelow settings n line w).2.store = w.store := by
  -- over the levels: the lines of a script have one less, and each is reached where it is run
  induction n with
  | zero =>
      intro line w each
      rw [Statement.executeBelow_eq_run]
      rcases each ⟨0, line, w⟩ (.self _) with looks | ⟨name, loads⟩
      · exact Statement.store_of_onlyLooks looks
      · dsimp only at loads
        rw [loads, Statement.opening]
        exact Statement.store_load_none
  | succ n ih =>
      intro line w each
      rw [Statement.executeBelow_eq_run]
      rcases each ⟨n + 1, line, w⟩ (.self _) with looks | ⟨name, loads⟩
      · exact Statement.store_of_onlyLooks looks
      · dsimp only at loads
        rw [loads, Statement.opening]
        refine Statement.store_load_some fun limit text isFile limited read => ?_
        refine store_runEach _ fun before l behind os v there reached => ?_
        have kept : (executeBelow settings n l (v.announcing l)).2.store = (v.announcing l).store :=
          ih fun t below => each t (.line loads isFile limited read there reached below)
        exact kept

open Statement in
/-- Whatever becomes of a statement: one that only looks leaves the store as it was; all but moves and
loads leave the session; one that writes a text changes at most the file that its path leads to, and
one that sets a mode at most the mode of its entry; one that makes an entry and warns leaves everything.
A line for which no others are run than such as look or load leaves the store as it was. -/
theorem changes_are_named (settings : Settings) :
    (∀ (execute? : Option (String → World → Ran)) (s : Statement) (w : World), s.OnlyLooks →
      (run settings execute? s w).2.store = w.store) ∧
    (∀ (execute? : Option (String → World → Ran)) (s : Statement) (w : World), s.AboutEntries →
      (run settings execute? s w).2.session = w.session) ∧
    (∀ (execute? : Option (String → World → Ran)) (s : Statement) (w : World) (name : String),
      s.destination? = some name →
        w.store.OnlyWrites (w.session.resolve [name]) (run settings execute? s w).2.store) ∧
    (∀ (execute? : Option (String → World → Ran)) (w : World) (name mode : String),
      w.store.OnlySetsMode (w.session.resolve [name])
        (run settings execute? (.chmod name mode) w).2.store) ∧
    (∀ (execute? : Option (String → World → Ran)) (w v : World) (kind : Kind) (name : String)
        (o : Outcome), run settings execute? (.create kind name) w = (.ok o, v) →
      (∃ e ∈ o.events, e.level = .warning) →
        w.store.isPresent (w.session.resolve [name]) = true ∧ v.store = w.store) ∧
    (∀ (n : Nat) (line : String) (w : World),
      (∀ t, Start.Reaches settings ⟨n, line, w⟩ t →
        (parse t.line).OnlyLooks ∨ ∃ name, parse t.line = .load name) →
      (executeBelow settings n line w).2.store = w.store) :=
  ⟨fun _ _ _ => store_of_onlyLooks, fun _ _ _ => session_of_aboutEntries,
    fun _ _ _ _ => onlyWrites_run, fun _ _ => onlySetsMode_run,
    fun _ _ _ _ _ _ => create_warns, fun _ _ _ => Start.store_of_reaches⟩

theorem drop_changes_nothing :
    (executeBelow {} 1 "LOAD \"s.fql\"" noteAndDrop).2.store = noteAndDrop.store ∧
      oneLetter.store.OnlyWrites (oneLetter.session.resolve ["a.txt"])
        (Statement.run {} none (.write "a.txt" "y") oneLetter).2.store := by
  obtain ⟨_, _, writes, _, _, lines⟩ := changes_are_named {}
  refine ⟨lines 1 _ noteAndDrop fun t reached => ?_, writes none _ oneLetter "a.txt" rfl⟩
  have loads : parse "LOAD \"s.fql\"" = .load "s.fql" := by decide +kernel
  have drops : parse "DROP" = .drop := by decide +kernel
  cases reached with
  | self => exact .inr ⟨_, loads⟩
  | line loads' _ _ read there _ below =>
      rw [loads, Statement.load.injEq] at loads'
      subst loads'
      have text : noteAndDrop.store.readText (noteAndDrop.session.resolve ["s.fql"])
        ({} : Settings).encoding = .ok "// up\n DROP" := by decide +kernel
      rw [text, Except.ok.injEq] at read
      subst read
      have script : scriptLines "// up\n DROP" = ["DROP"] := by decide +kernel
      rw [script] at there
      rcases List.singleton_eq_append_iff.mp there with ⟨rfl, only⟩ | ⟨_, none⟩
      · cases only
        cases below
        exact .inl (by rw [drops]; trivial)
      · cases none

end FileQuery
