import FileQuery.Config.Settings
import FileQuery.Libraries.Standard
import FileQuery.Proofs.Execution.Tree

/-! Which statements are aborted by an error of their own, wherever in the tree of a line they are
run, and that they are aborted before anything else happens: the one event is the error, and but for
the log the world is the one in which the statement began. -/
set_option autoImplicit false
namespace FileQuery

namespace Action

variable {r : Run} {settings : Settings} {name : String}

theorem on_load_of_missing {execute? : Option (String → World → Ran)}
    (missing : r.store.isFile (r.session.resolve [name]) = false) :
    (load settings execute? name).on r = (.error (.command (.noFile name)), r) := by
  have held : r.store.holds (r.session.resolve [name]) (some .file) = false := missing
  simp only [load, on_bind, on_resolve, on_present, held, Bool.not_false, if_true, on_refuse]

theorem on_load_some {execute : String → World → Ran}
    (isFile : r.store.isFile (r.session.resolve [name]) = true) :
    (load settings (some execute) name).on r =
      match settings.loadLimit, r.store.readText (r.session.resolve [name]) settings.encoding with
      | .error cause, _ => (.error (.illTyped cause), r)
      | .ok _, .error f => (.error (.store f), r)
      | .ok _, .ok text => ((scriptLines text).forM (runLine execute)).on r := by
  have held : r.store.holds (r.session.resolve [name]) (some .file) = true := isFile
  simp only [load, on_bind, on_resolve, on_present, held, Bool.not_true, Bool.false_eq_true, if_false]
  cases settings.loadLimit with
  | error cause => rfl
  | ok _ =>
      simp only [on_bind, on_look]
      cases r.store.readText (r.session.resolve [name]) settings.encoding <;> rfl

theorem on_load_none (isFile : r.store.isFile (r.session.resolve [name]) = true) :
    (load settings none name).on r =
      match settings.loadLimit with
      | .error cause => (.error (.illTyped cause), r)
      | .ok limit => (.error (.command (.ofSyntax (.loadTooDeep limit.text))), r) := by
  have held : r.store.holds (r.session.resolve [name]) (some .file) = true := isFile
  simp only [load, on_bind, on_resolve, on_present, held, Bool.not_true, Bool.false_eq_true, if_false]
  cases settings.loadLimit <;> rfl

/-- With no more scripts to open, one that is there is refused as soon as the limit is read. -/
theorem guarded_load_none :
    Guarded Run.children
      (r.store.isFile (r.session.resolve [name]) = false ∨ settings.loadLimit.isOk = true)
      (load settings none name) r := by
  cases isFile : r.store.isFile (r.session.resolve [name]) with
  | false => exact .of_refused (.inl rfl) (on_load_of_missing isFile)
  | true =>
      have held : r.store.holds (r.session.resolve [name]) (some .file) = true := isFile
      rw [load]
      refine Guarded.next (on_resolve _) (Guarded.next (on_present _ _) ?_)
      rw [held]
      cases limit : settings.loadLimit with
      | ok _ => exact (guarded_refuse _).congr (by simp [Except.isOk, Except.toBool])
      | error cause =>
          have goes : Plain Run.children (throw (.illTyped cause) : Action Unit) :=
            plain_throw (by simp)
          exact (goes.guarded r).congr (by simp [Except.isOk, Except.toBool])

/-- What runs the lines is only ever stopped by stray faults, so none of them refuses the script. -/
theorem guarded_load_some {execute : String → World → Ran}
    (stray : ∀ line w f, (execute line w).1 = .error f → f.Stray) :
    Guarded (fun _ => ()) (r.store.isFile (r.session.resolve [name]) = false)
      (load settings (some execute) name) r := by
  cases isFile : r.store.isFile (r.session.resolve [name]) with
  | false => exact .of_refused rfl (on_load_of_missing isFile)
  | true =>
      refine ⟨rfl, by simp, fun _ e refused => ?_⟩
      rw [on_load_some isFile] at refused
      cases limit : settings.loadLimit with
      | error cause =>
          rw [limit] at refused
          cases refused
      | ok _ =>
          rw [limit] at refused
          cases read : r.store.readText (r.session.resolve [name]) settings.encoding with
          | error f =>
              rw [read] at refused
              cases refused
          | ok text =>
              rw [read] at refused
              exact stray_of_runLines stray (scriptLines text) (Prod.ext refused rfl)

end Action

namespace Statement

/-- Whether a statement is aborted by an error of its own where so many scripts may still be
opened. -/
def Refused (settings : Settings) (levels : Nat) (w : World) : Statement → Prop
  | .load name =>
    w.store.isFile (w.session.resolve [name]) = false ∨
      levels = 0 ∧ settings.loadLimit.isOk = true
  | .edit _ => w.editor = none
  | .use folder => w.store.isFolder (w.session.resolve [folder]) = false
  | .drop => String.ofList (Path.parent w.session.folder.toList) = w.session.folder
  | .list _ | .count _ => w.store.isFolder w.session.folder = false
  | .read name | .delete _ name | .transfer _ _ name _ =>
    name = wildcard ∧ w.store.isFolder w.session.folder = false
  | .deleteAll _ source | .transferAll _ _ _ source =>
    w.store.isFolder (source.path w.session) = false
  | .select _ source order _ =>
    w.store.isFolder (source.path w.session) = false ∨ SortSpec.Unknown order
  | .unknown .. => True
  | .create .. | .write .. | .append .. | .rename .. | .chmod .. | .merge .. => False

variable {settings : Settings}

theorem guarded_perform_alone (calm : ∀ e, settings.style ≠ .error (.command e)) (levels : Nat)
    (w : World) {s : Statement} (alone : ∀ name, s ≠ .load name)
    (execute? : Option (String → World → Ran)) :
    Action.Guarded Run.children (s.Refused settings levels w)
      (Action.perform settings execute? s) { toWorld := w } := by
  have blind := Run.blind_children
  let r : Run := { toWorld := w }
  cases s with
  | load name => exact absurd rfl (alone name)
  | create kind name => exact (Action.plain_create blind kind name settings).guarded r
  | read name => exact Action.guarded_readFile blind name settings r
  | edit name => exact Action.guarded_editFile blind name settings r
  | write name content => exact (Action.plain_writeFile blind name content settings).guarded r
  | append name content => exact (Action.plain_appendFile blind name content settings).guarded r
  | delete kind name => exact Action.guarded_delete blind kind name r
  | use folder => exact Action.guarded_use folder r
  | drop => exact Action.guarded_drop r
  | list kind => exact Action.guarded_list blind kind r
  | count kind => exact Action.guarded_count blind kind r
  | transfer mode kind name target => exact Action.guarded_transfer blind mode kind name target r
  | rename kind old new => exact (Action.plain_rename blind kind old new).guarded r
  | chmod name mode => exact (Action.plain_chmod blind name mode).guarded r
  | merge sources destination =>
      exact (Action.plain_merge blind sources destination settings).guarded r
  | deleteAll kind source => exact Action.guarded_deleteAll blind kind source settings r
  | transferAll mode kind target source =>
      exact Action.guarded_transferAll blind mode kind target source settings r
  | select kind source order into =>
      exact Action.guarded_selectRecords blind calm kind source order into r
  | unknown text reason => exact Action.guarded_refuse _

theorem guarded_perform (calm : ∀ e, settings.style ≠ .error (.command e)) (levels : Nat)
    (w : World) (s : Statement) :
    Action.Guarded (fun _ => ()) (s.Refused settings levels w)
      (Action.perform settings (opening settings levels) s) { toWorld := w } := by
  cases s with
  | load name =>
      cases levels with
      | zero => exact Action.guarded_load_none.blank.congr (by simp [Refused])
      | succ n =>
          refine (Action.guarded_load_some fun line w f stopped => ?_).congr (by simp [Refused])
          rw [executeBelow_eq_run] at stopped
          exact stray_of_stopped stopped
  | _ => exact (guarded_perform_alone calm levels w (by simp) _).blank

theorem run_of_refused (calm : ∀ e, settings.style ≠ .error (.command e)) {levels : Nat}
    {w w' : World} {s : Statement} {o : Outcome} (refused : s.Refused settings levels w)
    (ran : run settings (opening settings levels) s w = (.ok o, w')) :
    ∃ (e : CommandError) (log : List LogEntry), run settings (opening settings levels) s w =
      (.ok { statement := s, events := [{ level := .error, message := e.message }],
             errorCode := some e.exitCode }, { w with log }) := by
  obtain ⟨e, log, stopped⟩ := (guarded_perform calm levels w s).refused refused fun strays => by
    obtain ⟨f, stopped⟩ := (stopped_iff _ _ _ _).mpr strays
    rw [ran] at stopped
    cases stopped
  exact ⟨e, _, errorCode_of_refused stopped⟩

theorem errorCode_eq_none (calm : ∀ e, settings.style ≠ .error (.command e)) {levels : Nat}
    {w w' : World} {s : Statement} {o : Outcome} (goes : ¬ s.Refused settings levels w)
    (ran : run settings (opening settings levels) s w = (.ok o, w')) : o.errorCode = none :=
  errorCode_of_not_refused ((guarded_perform calm levels w s).goes goes) ran

end Statement

namespace Action

/-- The outcomes that a script has gathered, unless it was stopped by a stray fault, are those of its
lines. -/
theorem outcome_of_load {n : Nat} {name : String} {settings : Settings} {r : Run}
    (bare : r.children = [])
    (calm : ∀ f, ((load settings (some (Statement.executeBelow settings n)) name).on r).1 = .error f →
      ¬ f.Stray) {i : Nat} {c : Outcome}
    (there : ((load settings (some (Statement.executeBelow settings n)) name).on r).2.children[i]? =
      some c) :
    ∃ text line, r.store.readText (r.session.resolve [name]) settings.encoding = .ok text ∧
      (scriptLines text)[i]? = some line ∧
      (Statement.executeBelow settings n line ((Statement.worldAfter settings n
        ((scriptLines text).take i) r.toWorld).announcing line)).1 = .ok c := by
  rcases done : (load settings (some (Statement.executeBelow settings n)) name).on r with ⟨x, r'⟩
  rw [done] at calm there
  have untouched : r' = r → False := by
    intro same
    rw [same, bare] at there
    cases there
  cases isFile : r.store.isFile (r.session.resolve [name]) with
  | false =>
      rw [on_load_of_missing isFile] at done
      cases done
      exact (untouched rfl).elim
  | true =>
      rw [on_load_some isFile] at done
      cases limit : settings.loadLimit with
      | error cause =>
          rw [limit] at done
          cases done
          exact (untouched rfl).elim
      | ok _ =>
          rw [limit] at done
          cases read : r.store.readText (r.session.resolve [name]) settings.encoding with
          | error f =>
              rw [read] at done
              cases done
              exact (untouched rfl).elim
          | ok text =>
              rw [read] at done
              cases x with
              | error f =>
                  refine absurd (stray_of_runLines (fun line w f stopped => ?_) _ done) (calm f rfl)
                  rw [Statement.executeBelow_eq_run] at stopped
                  exact Statement.stray_of_stopped stopped
              | ok _ =>
                  obtain ⟨outcomes, gathered, each⟩ := on_runLines (scriptLines text) done
                  rw [gathered, bare, List.nil_append] at there
                  obtain ⟨line, stands, ran⟩ := each i c there
                  exact ⟨text, line, rfl, stands, ran⟩

end Action

namespace Start

variable {settings : Settings}

/-- Every outcome right below that of a line is the outcome of one of the lines that are run for
it. -/
theorem child_ran (calm : ∀ e, settings.style ≠ .error (.command e)) {s : Start} {o c : Outcome}
    (ran : (s.ran settings).1 = .ok o) {i : Nat} (child : o.children[i]? = some c) :
    ∃ s', s.child? settings i = some s' ∧ (s'.ran settings).1 = .ok c := by
  obtain ⟨w, ran⟩ : ∃ w, s.ran settings = (.ok o, w) := ⟨_, Prod.ext ran rfl⟩
  rw [Start.ran, Statement.executeBelow_eq_run] at ran
  obtain ⟨levels, line, world⟩ := s
  dsimp only at ran
  have none_of_kept {s : Statement} {P : Prop}
      (ran : Statement.run settings (Statement.opening settings levels) s world = (.ok o, w))
      (guarded : Action.Guarded Run.children P
        (Action.perform settings (Statement.opening settings levels) s) { toWorld := world }) :
      False := by
    rw [(Statement.work_of_run ran).1, guarded.kept] at child
    cases child
  by_cases loads : ∃ name, Statement.parse line = .load name
  · obtain ⟨name, parsed⟩ := loads
    rw [parsed] at ran
    cases levels with
    | zero => exact (none_of_kept ran Action.guarded_load_none).elim
    | succ n =>
        have same : Action.perform settings (Statement.opening settings (n + 1)) (.load name) =
            Action.load settings (some (Statement.executeBelow settings n)) name := rfl
        have left := Statement.work_of_run ran
        rw [same] at left
        rw [left.1] at child
        obtain ⟨text, line', read, stands, ran'⟩ := Action.outcome_of_load rfl left.2 child
        have script : Start.script settings ⟨n + 1, line, world⟩ = scriptLines text := by
          simp only [Start.script, parsed]
          rw [read]
        refine ⟨{ levels := n, line := line', world := (Statement.worldAfter settings n
          ((scriptLines text).take i) world).announcing line' }, ?_, ran'⟩
        rw [Start.child?, script, stands]
        rfl
  · exact (none_of_kept ran (Statement.guarded_perform_alone calm levels world
      (fun name same => loads ⟨name, same⟩) _)).elim

/-- Every outcome in the tree of a line is the outcome of the line at the same place in the tree of
the lines that are run for it. -/
theorem descendant_ran (calm : ∀ e, settings.style ≠ .error (.command e)) {node : Outcome}
    (path : List Nat) : ∀ {s : Start} {o : Outcome}, (s.ran settings).1 = .ok o →
      o.at? path = some node → ∃ s', s.at? settings path = some s' ∧ (s'.ran settings).1 = .ok node := by
  induction path with
  | nil =>
      intro s o ran found
      cases found
      exact ⟨s, rfl, ran⟩
  | cons i path ih =>
      intro s o ran found
      rw [Outcome.at?, Option.bind_eq_some_iff] at found
      obtain ⟨c, child, found⟩ := found
      obtain ⟨s', stands, ran'⟩ := child_ran calm ran child
      obtain ⟨s'', below, done⟩ := ih ran' found
      exact ⟨s'', by rw [Start.at?, stands]; exact below, done⟩

end Start

namespace Config

theorem setting?_ne_command (config : Section) (section_ key : String) (e : CommandError) :
    setting? config section_ key ≠ .error (.command e) := by
  unfold setting?
  cases config.lookup section_ with
  | none => simp
  | some v => cases v <;> simp [ entry?]

theorem styleOf_ne_command (config : Section) (e : CommandError) :
    styleOf config ≠ .error (.command e) := by
  have title := setting?_ne_command config "output" "text_report_title" e
  have delimiter := setting?_ne_command config "output" "csv_delimiter" e
  rw [styleOf]
  cases found : setting? config "output" "text_report_title" with
  | error f =>
      rintro ⟨⟩
      exact title found
  | ok t =>
      cases found' : setting? config "output" "csv_delimiter" with
      | error f =>
          rintro ⟨⟩
          exact delimiter found'
      | ok d =>
          intro same
          cases same

/-- Settings that come from a configuration refuse no statement by themselves. -/
theorem style_toSettings {libraries : Libraries} {config : Section} {settings : Settings}
    (configured : toSettings libraries config = .ok settings) (e : CommandError) :
    settings.style ≠ .error (.command e) := by
  have style : settings.style = styleOf config := by
    rw [toSettings] at configured
    cases found : setting? config "general" "max_load_depth" <;> rw [found] at configured
    · cases configured
    cases found' : setting? config "query" "content_encoding" <;> rw [found'] at configured
    · cases configured
    cases found'' : setting? config "query" "content_size_limit" <;> rw [found''] at configured
    · cases configured
    cases configured
    rfl
  rw [style]
  exact styleOf_ne_command config e

end Config

/-- What the outcome at a place of the tree of a line is: that of a statement which is aborted before it
has done anything, or one without an exit code. -/
theorem Start.outcome_at {settings : Settings} (calm : ∀ e, settings.style ≠ .error (.command e))
    {line : String} {w w' : World} {o node : Outcome} (ran : execute settings line w = (.ok o, w'))
    {path : List Nat} (found : o.at? path = some node) :
    ∃ s v, Start.at? settings path ⟨settings.levels, line, w⟩ = some s ∧
      s.ran settings = (.ok node, v) ∧
      (((Statement.parse s.line).Refused settings s.levels s.world ∧
          ∃ (e : CommandError) (log : List LogEntry), v = { s.world with log } ∧
            node = { statement := Statement.parse s.line
                     events := [{ level := .error, message := e.message }]
                     errorCode := some e.exitCode }) ∨
        (¬ (Statement.parse s.line).Refused settings s.levels s.world ∧ node.errorCode = none)) := by
  have top : (Start.ran settings ⟨settings.levels, line, w⟩).1 = .ok o := by
    rw [Start.ran]
    exact congrArg Prod.fst ran
  obtain ⟨s, stands, done⟩ := Start.descendant_ran calm path top found
  refine ⟨s, (s.ran settings).2, stands, Prod.ext done rfl, ?_⟩
  have ran' : Statement.run settings (Statement.opening settings s.levels)
      (Statement.parse s.line) s.world = (.ok node, (s.ran settings).2) := by
    rw [← Statement.executeBelow_eq_run]
    exact Prod.ext done rfl
  by_cases refused : (Statement.parse s.line).Refused settings s.levels s.world
  · obtain ⟨e, log, ended⟩ := Statement.run_of_refused calm refused ran'
    rw [ended] at ran'
    exact .inl ⟨refused, e, log, (congrArg Prod.snd ran').symm,
      (Except.ok.inj (congrArg Prod.fst ran')).symm⟩
  · exact .inr ⟨refused, Statement.errorCode_eq_none calm refused ran'⟩

/-- An outcome with an exit code, wherever in the tree of a line, is that of a statement which was
aborted, and says nothing but so: its one event is the error, it has no records and nothing below
it, and the world it leaves is the one in which it began, the log aside. How many scripts may still
be opened is given with a line and stays as it is. The aborted statements are those that find at once
that what they ask for is not there. -/
theorem aborted_outcome_is_bare {libraries : Libraries} {config : Config.Section}
    {settings : Settings} (configured : Config.toSettings libraries config = .ok settings)
    {line : String} {w w' : World}
    {o node : Outcome} (ran : execute settings line w = (.ok o, w')) {path : List Nat}
    (found : o.at? path = some node) :
    ∃ s v, Start.at? settings path ⟨settings.levels, line, w⟩ = some s ∧
      s.ran settings = (.ok node, v) ∧
      (node.errorCode.isSome = true ↔
        (Statement.parse s.line).Refused settings s.levels s.world) ∧
      (node.errorCode.isSome = true →
        (∃ message, node.events = [{ level := .error, message }]) ∧ node.records = none ∧
          node.children = [] ∧ ∃ log, v = { s.world with log }) := by
  obtain ⟨s, v, stands, done, ⟨refused, e, log, left, rfl⟩ | ⟨goes, code⟩⟩ :=
    Start.outcome_at (Config.style_toSettings configured) ran found
  · exact ⟨s, v, stands, done, iff_of_true rfl refused,
      fun _ => ⟨⟨e.message, rfl⟩, rfl, rfl, log, left⟩⟩
  · refine ⟨s, v, stands, done, ?_⟩
    rw [code]
    exact ⟨iff_of_false (by simp) goes, by simp⟩

/-- A script asks for a folder that is not there. -/
def missingFolder : World where
  store := { now := ⟨0⟩, entries := [(["work", "s.fql"], .file ⟨#[85, 83, 69, 32, 34, 103, 34]⟩ 420 ⟨0⟩),
    (["work"], .folder 493), ([], .folder 493)] }
  session := .start ""

theorem aborted_below_script :
    ∃ o w' node, execute {} "LOAD \"s.fql\"" missingFolder = (.ok o, w') ∧
      o.at? [0] = some node ∧ node.errorCode.isSome = true ∧
      (∃ message, node.events = [{ level := .error, message }]) ∧ node.records = none ∧
      node.children = [] := by
  have aborts : ((execute {} "LOAD \"s.fql\"" missingFolder).1.toOption.bind
      (Outcome.at? [0])).bind (·.errorCode) = some 65 := by decide +kernel
  obtain ⟨node, found, code⟩ := Option.bind_eq_some_iff.mp aborts
  obtain ⟨o, returned, found⟩ := Option.bind_eq_some_iff.mp found
  rcases ran : execute {} "LOAD \"s.fql\"" missingFolder with ⟨f | o', w'⟩ <;> rw [ran] at returned
  · cases returned
  · cases returned
    have set : node.errorCode.isSome = true := by rw [code]; rfl
    have configured : Config.toSettings .standard [] = .ok {} := rfl
    obtain ⟨_, _, _, _, _, bare⟩ := aborted_outcome_is_bare configured ran found
    obtain ⟨events, records, children, _⟩ := bare set
    exact ⟨o, w', node, rfl, found, set, events, records, children⟩

end FileQuery
