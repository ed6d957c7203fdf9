import FileQuery.Proofs.Execution.Batch
import FileQuery.Proofs.Execution.Proper

/-! The wildcard beside the statement about all entries. Both go through the same records. For each
the wildcard asks once more whether the name still leads to an entry of its kind, and so leaves alone
what earlier changes have cut off. -/
set_option autoImplicit false
namespace FileQuery

open Store (hasNul)

/-- What is said of the items of a report, one by one. -/
def itemsOf (events : List Event) : List (Level × String) :=
  events.filterMap fun e => e.item.map fun item => (e.level, item)

/-- What a run says of single items, if it gives an outcome, and the store that it leaves. -/
def Ran.effect (ran : Ran) : Option (List (Level × String)) × Store :=
  (ran.1.toOption.map fun o => itemsOf o.events, ran.2.store)

/-- Takes one step after the other, each for a record and from the store that the last one leaves, up to
one that stops the others. -/
def gather (step : Record → Store → Option Level × Store) :
    List Record → Store → Option (List (Level × String)) × Store
  | [], s => (some [], s)
  | record :: rest, s =>
    match step record s with
    | (none, s) => (none, s)
    | (some level, s) =>
      let (later, s) := gather step rest s
      (later.map ((level, record.name) :: ·), s)

section
variable {step step' : Record → Store → Option Level × Store}

theorem gather_cons {record : Record} {rest : List Record} {s t : Store} {level : Level}
    (taken : step record s = (some level, t)) :
    gather step (record :: rest) s =
      ((gather step rest t).1.map ((level, record.name) :: ·), (gather step rest t).2) := by
  rw [gather, taken]

theorem gather_congr {records : List Record}
    (same : ∀ record ∈ records, ∀ s, step record s = step' record s) :
    ∀ s, gather step records s = gather step' records s := by
  induction records with
  | nil => exact fun _ => rfl
  | cons record rest ih =>
      intro s
      have others := ih fun other member => same other (List.mem_cons_of_mem _ member)
      rw [gather, gather, same record (by simp)]
      split
      · rfl
      · rw [others]

theorem gather_isSome {records : List Record}
    (goes : ∀ record ∈ records, ∀ s, (step record s).1.isSome = true) :
    ∀ s, (gather step records s).1.isSome = true := by
  induction records with
  | nil => exact fun _ => rfl
  | cons record rest ih =>
      intro s
      have first := goes record (by simp) s
      rcases taken : step record s with ⟨_ | level, t⟩
      · rw [taken] at first
        cases first
      · rw [gather_cons taken, Option.isSome_map]
        exact ih (fun other member => goes other (List.mem_cons_of_mem _ member)) t

end

theorem itemsOf_append (events events' : List Event) :
    itemsOf (events ++ events') = itemsOf events ++ itemsOf events' := List.filterMap_append

namespace Action

/-- Whether a turn on an item does what a step comes to. -/
def Takes (turn : Action Unit) (item : String) (taken : Option Level × Store) (r : Run) : Prop :=
  match taken with
  | (some level, s) =>
    ∃ message, turn.on r = (.ok (), { r with store := s }.reported level message (some item))
  | (none, s) => ∃ f, f.Stray ∧ turn.on r = (.error f, { r with store := s })

theorem on_gather (turn : Record → Action Unit) (step : Record → Store → Option Level × Store)
    {session : Session} (records : List Record)
    (each : ∀ record ∈ records, ∀ r : Run, r.session = session →
      Takes (turn record) record.name (step record r.store) r) :
    ∀ r : Run, r.session = session → ∃ r', r'.store = (gather step records r.store).2 ∧
      match (gather step records r.store).1 with
      | some items => (records.forM turn).on r = (.ok (), r') ∧
        itemsOf r'.events = itemsOf r.events ++ items
      | none => ∃ f, f.Stray ∧ (records.forM turn).on r = (.error f, r') := by
  -- over the records, for every run: a turn that does not stop leaves the run to those after it
  induction records with
  | nil => exact fun r _ => ⟨r, rfl, rfl, by simp⟩
  | cons record rest ih =>
      intro r known
      have first := each record (by simp) r known
      rcases taken : step record r.store with ⟨_ | level, s⟩ <;> rw [taken] at first
      · obtain ⟨f, stray, stopped⟩ := first
        refine ⟨{ r with store := s }, ?_, ?_⟩
        · rw [gather, taken]
        · rw [gather, taken]
          refine ⟨f, stray, ?_⟩
          rw [on_forM_cons, stopped]
      · obtain ⟨message, first⟩ := first
        let next : Run := { r with store := s }.reported level message (some record.name)
        obtain ⟨r', left, others⟩ :=
          ih (fun other member => each other (List.mem_cons_of_mem _ member)) next known
        have whole : (gather step (record :: rest) r.store).2 = (gather step rest s).2 := by
          rw [gather_cons taken]
        refine ⟨r', left.trans whole.symm, ?_⟩
        have own : itemsOf next.events = itemsOf r.events ++ [(level, record.name)] :=
          itemsOf_append _ _
        have follows : ((record :: rest).forM turn).on r = (rest.forM turn).on next := by
          rw [on_forM_cons, first]
        rw [gather_cons taken, follows]
        have store : next.store = s := rfl
        rw [store] at others
        cases later : (gather step rest s).1 with
        | none =>
            rw [later] at others
            exact others
        | some items =>
            rw [later] at others
            obtain ⟨done, told⟩ := others
            refine ⟨done, ?_⟩
            rw [told, own, List.append_assoc]
            rfl

end Action

namespace Batch

variable {b : Batch} {kind : Kind} {session : Session} {record : Record} {s t : Store} {r : Run}

def single (kind : Kind) : Batch → Statement
  | delete => .delete kind wildcard
  | transfer mode target => .transfer mode kind wildcard target

/-- The work for one of the entries that the wildcard stands for. -/
def named (kind : Kind) (name : String) : Batch → Action Unit
  | delete => do
    let path ← Action.resolve [name]
    if ← Action.present path (some kind) then
      match kind with
      | .folder => Action.change (Store.removeTree path)
      | .file => Action.change (Store.removeFile path)
      Action.emit .success (kind.label ++ " \"" ++ name ++ "\" deleted.") (some name)
    else Action.missing kind name
  | transfer mode target => Action.transferWork mode kind target name

/-- The step of the statement about all entries. -/
def step (b : Batch) (session : Session) (record : Record) (s : Store) : Option Level × Store :=
  match b.change session record s with
  | (.ok _, s) => (some .success, s)
  | (.error f, s) => (if f.isRefusal then some .error else none, s)

theorem store_step (session : Session) (record : Record) (s : Store) :
    (b.step session record s).2 = (b.change session record s).2 := by
  rw [step]
  rcases b.change session record s with ⟨f | _, t⟩ <;> rfl

def guardedStep (b : Batch) (kind : Kind) (session : Session) (record : Record) (s : Store) :
    Option Level × Store :=
  if s.holds record.path (some kind) then b.step session record s else (some .error, s)

/-- Whether a change would succeed on a record that no longer leads to an entry of its kind. -/
def Stale (b : Batch) (kind : Kind) (session : Session) (record : Record) (s : Store) : Prop :=
  s.holds record.path (some kind) = false ∧ (b.change session record s).1 = .ok ()

theorem perform_single (b : Batch) (settings : Settings)
    (execute? : Option (String → World → Ran)) (kind : Kind) :
    Action.perform settings execute? (b.single kind) =
      Action.forTargets kind wildcard fun name => b.named kind name := by
  cases b <;> rfl

theorem on_named {place : Place} {whole : Store}
    (stands : record.Stands whole r.session.folder place kind) (normal : r.session.Normal) :
    (b.named kind record.name).on r =
      if r.store.holds record.path (some kind) then
        (do
          Action.change (b.change r.session record)
          Action.emit .success (b.success kind record) (some record.name)).on r
      else (Action.missing kind record.name).on r := by
  have path := normal.resolve_name stands.clean
  rw [← stands.path] at path
  have present : r.store.holds (r.session.resolve [record.name]) (some kind) =
      r.store.holds record.path (some kind) := by rw [path]
  cases b with
  | delete =>
      rw [named, Action.on_bind, Action.on_resolve]
      dsimp only
      rw [Action.on_bind, Action.on_present, present, path]
      cases r.store.holds record.path (some kind) with
      | false => rfl
      | true =>
          rw [change, Record.isFolder, stands.sort]
          cases kind <;> rfl
  | transfer mode target =>
      have base : String.ofList (Path.baseName record.name.toList) = record.name := by
        have alone : Path.join [] record.name.toList = record.name.toList := by
          rw [Path.join]
          split <;> rfl
        have same := stands.clean.baseName_join []
        rw [alone] at same
        rw [same, String.ofList_toList]
      rw [named, Action.transferWork, Action.on_bind, Action.on_resolve]
      dsimp only
      rw [Action.on_bind, Action.on_present, present, path]
      cases r.store.holds record.path (some kind) with
      | false => rfl
      | true =>
          dsimp only
          rw [if_pos rfl, if_pos rfl, Action.on_bind, Action.on_resolve, base, change, stands.sort]
          rfl

theorem isReadable_of_change (plain : hasNul record.path = false) {f : Store.Fault}
    (failed : (b.change session record s).1 = .error f) : f.isReadable = f.isRefusal := by
  cases refusal : f.isRefusal with
  | true => exact Store.isReadable_of_isRefusal refusal
  | false =>
      by_contra readable
      have calm : ¬ Store.Stray (b.change session record s).1 := by
        rw [failed, Store.stray_error]
        exact readable
      rw [refusable_change plain calm f failed] at refusal
      cases refusal

theorem takes_turn (plain : hasNul record.path = false) :
    Action.Takes (b.turn kind record) record.name (b.step r.session record r.store) r := by
  unfold Action.Takes
  rw [on_turn, step]
  rcases changed : b.change r.session record r.store with ⟨f | _, store⟩
  · have same := isReadable_of_change plain (congrArg Prod.fst changed)
    cases refusal : f.isRefusal with
    | true =>
        dsimp only
        rw [refusal, if_pos rfl]
        exact ⟨_, rfl⟩
    | false =>
        dsimp only
        rw [refusal, if_neg (by simp)]
        exact ⟨.store f, same.trans refusal, rfl⟩
  · exact ⟨_, rfl⟩

theorem takes_targetTurn {place : Place} {whole : Store}
    (stands : record.Stands whole r.session.folder place kind) (normal : r.session.Normal)
    (plain : hasNul record.path = false) :
    Action.Takes (Action.targetTurn kind (fun name => b.named kind name) record) record.name
      (b.guardedStep kind r.session record r.store) r := by
  unfold Action.Takes
  rw [Action.targetTurn, Action.on_guardItem, on_named stands normal, guardedStep]
  cases r.store.holds record.path (some kind) with
  | false => exact ⟨kind.label ++ " \"" ++ record.name ++ "\" does not exist.", rfl⟩
  | true =>
      rw [if_pos rfl, if_pos rfl, step, Action.on_bind]
      rcases changed : b.change r.session record r.store with ⟨f | _, store⟩
      · have same := isReadable_of_change plain (congrArg Prod.fst changed)
        rw [Action.on_change_error changed]
        cases refusal : f.isRefusal with
        | true =>
            rw [refusal] at same
            simp only [same, refusal, if_true]
            exact ⟨_, rfl⟩
        | false =>
            rw [refusal] at same
            simp only [same, refusal, Bool.false_eq_true, if_false]
            exact ⟨.store f, same, rfl⟩
      · rw [Action.on_change_ok changed]
        exact ⟨_, rfl⟩

/-! Steps on records that no longer lead to an entry of their kind. -/

/-- A change that fails on a record that no longer leads to an entry of its kind changes nothing. -/
theorem unchanged_of_not_held (sort : record.kind = kind)
    (gone : s.holds record.path (some kind) = false) {f : Store.Fault}
    (failed : b.change session record s = (.error f, t)) : t = s := by
  cases b with
  | delete =>
      rw [change, Record.isFolder, sort] at failed
      cases kind with
      | file =>
          rw [if_neg (by decide), Store.removeFile] at failed
          exact Store.unchanged_of_ofExcept failed
      | folder => exact Store.unchanged_of_removeTree gone failed
  | transfer mode target =>
      rw [change, sort] at failed
      cases mode with
      | move =>
          rw [Action.transferChange, Store.move] at failed
          exact Store.unchanged_of_ofExcept failed
      | copy =>
          cases kind with
          | file => exact Store.unchanged_of_copyFile failed
          | folder =>
              obtain ⟨e, refused, _⟩ := Store.copyTree_of_missing gone
                (session.resolve [target, record.name])
              have failed : Store.copyTree record.path (session.resolve [target, record.name]) s =
                  (.error f, t) := failed
              exact congrArg Prod.snd (failed.symm.trans refused)

/-- Whether the records go to a path with a NUL. -/
def ToNul (session : Session) (b : Batch) : Prop :=
  ∃ mode target, b = transfer mode target ∧ hasNul (session.resolve [target]) = true

theorem change_of_toNul (clean : Path.Clean record.name.toList) (normal : session.Normal)
    (outside : b.ToNul session) (s : Store) :
    b.change session record s = (.error .nulInPath, s) := by
  obtain ⟨mode, target, rfl, nul⟩ := outside
  refine Action.transferChange_of_hasNul ?_ mode record.kind s
  rw [normal.resolve_below clean, Store.hasNul_joinName clean, nul]
  rfl

def Copies (b : Batch) (kind : Kind) : Prop :=
  b = delete ∧ kind = .folder ∨ ∃ target, b = transfer .copy target

section
variable {folder : String} {place : Place} {whole : Store}
  (stands : record.Stands whole folder place kind) (plain : hasNul record.path = false)
include stands plain

theorem hasNul_destination (normal : session.Normal) {mode : Transfer} {target : String}
    (within : ¬ (transfer mode target).ToNul session) :
    hasNul (session.resolve [target, record.name]) = false := by
  have own : hasNul record.name = false := by
    rw [stands.path, Store.hasNul_joinName stands.clean, Bool.or_eq_false_iff] at plain
    exact plain.2
  have target' : hasNul (session.resolve [target]) = false := by
    rw [← Bool.not_eq_true]
    exact fun nul => within ⟨mode, target, rfl, nul⟩
  rw [normal.resolve_below stands.clean, Store.hasNul_joinName stands.clean, own, target']
  rfl

/-- A change strays only where it goes to a NUL, or on a folder that is there. -/
theorem held_of_stray (normal : session.Normal) (within : ¬ b.ToNul session)
    (stray : Store.Stray (b.change session record s).1) :
    b.Copies kind ∧ s.holds record.path (some kind) = true := by
  cases b with
  | delete =>
      rw [change_delete, Action.stray_removal plain, stands.sort] at stray
      obtain ⟨rfl, _, mode, ends, _⟩ := stray
      exact ⟨.inl ⟨rfl, rfl⟩, Store.isFolder_of_stat (Store.stat_follow (by simp) ends)⟩
  | transfer mode target =>
      rcases (Action.stray_transferChange plain mode record.kind s).mp stray with
        nul | ⟨rfl, sort, nested⟩
      · rw [hasNul_destination stands plain normal within] at nul
        cases nul
      · rw [stands.sort] at sort
        subst sort
        refine ⟨.inr ⟨target, rfl⟩, ?_⟩
        cases found : s.isFolder record.path with
        | true => exact found
        | false =>
            obtain ⟨f, failed, cause⟩ := Store.copyTree_of_missing found
              (session.resolve [target, record.name])
            have nested' : f = .nested :=
              Except.error.inj ((congrArg Prod.fst failed).symm.trans nested)
            subst nested'
            rcases cause with none | refused
            · cases none
            · cases Store.refusable_namesAt plain s _ refused

theorem guardedStep_eq_iff (normal : session.Normal) (within : ¬ b.ToNul session) :
    b.guardedStep kind session record s = b.step session record s ↔
      ¬ b.Stale kind session record s := by
  rw [guardedStep, Stale]
  cases held : s.holds record.path (some kind) with
  | true => simp
  | false =>
      have calm : ¬ Store.Stray (b.change session record s).1 := by
        intro stray
        rw [(held_of_stray stands plain normal within stray).2] at held
        cases held
      have refusable := refusable_change plain calm
      rw [if_neg (by simp), step]
      rcases changed : b.change session record s with ⟨f | _, t⟩
      · have same := unchanged_of_not_held stands.sort held changed
        rw [changed] at refusable
        simp [same, refusable f rfl]
      · simp

end

theorem level_of_stale (stale : b.Stale kind session record s) :
    (∃ t, b.guardedStep kind session record s = (some .error, t)) ∧
      b.step session record s = (some .success, (b.change session record s).2) := by
  obtain ⟨gone, done⟩ := stale
  rw [guardedStep, gone, step]
  rcases changed : b.change session record s with ⟨f | _, t⟩ <;> rw [changed] at done
  · cases done
  · exact ⟨⟨s, rfl⟩, rfl⟩

/-- Where no step stops the others, the steps of the wildcard come to the same as those of the statement
about all entries unless one is taken on a stale record. -/
theorem gather_guardedStep_eq_iff (records : List Record)
    (agree : ∀ record ∈ records, ∀ s, b.guardedStep kind session record s = b.step session record s ↔
      ¬ b.Stale kind session record s)
    (goes : ∀ record ∈ records, ∀ s, (b.step session record s).1.isSome = true) :
    ∀ s : Store, gather (b.guardedStep kind session) records s = gather (b.step session) records s ↔
      ¬ MetInTurn (b.Stale kind session) (fun record s => (b.change session record s).2) records s := by
  -- over the records, for every store: steps that agree leave the same store to those after them
  induction records with
  | nil => simp [gather, MetInTurn]
  | cons record rest ih =>
      intro s
      have goes' := fun other member => goes other (List.mem_cons_of_mem record member)
      have others := ih (fun other member => agree other (List.mem_cons_of_mem _ member)) goes'
        (b.change session record s).2
      rw [MetInTurn, not_or]
      by_cases stale : b.Stale kind session record s
      · obtain ⟨⟨t, guarded⟩, plain⟩ := level_of_stale stale
        refine iff_of_false ?_ (fun both => both.1 stale)
        intro same
        have firsts := congrArg Prod.fst same
        rw [gather_cons guarded, gather_cons plain] at firsts
        obtain ⟨later, told⟩ := Option.isSome_iff_exists.mp
          (gather_isSome goes' (b.change session record s).2)
        rw [told] at firsts
        cases others : (gather (b.guardedStep kind session) rest t).1 <;> simp [others] at firsts
      · have same := (agree record (by simp) s).mpr stale
        obtain ⟨level, taken⟩ : ∃ level,
            b.step session record s = (some level, (b.change session record s).2) := by
          obtain ⟨level, own⟩ := Option.isSome_iff_exists.mp (goes record (by simp) s)
          exact ⟨level, Prod.ext own (store_step session record s)⟩
        rw [← others, gather_cons taken, gather_cons (same.trans taken), and_iff_right stale,
          Prod.ext_iff, Prod.ext_iff]
        refine and_congr_left fun _ => ?_
        exact ⟨fun mapped => Option.map_injective (List.cons_injective) mapped, fun eq => by rw [eq]⟩

theorem not_stale (sort : record.kind = kind)
    (safe : b.Copies kind) :
    ¬ b.Stale kind session record s := by
  rintro ⟨gone, done⟩
  rcases safe with ⟨rfl, rfl⟩ | ⟨target, rfl⟩
  · rw [change, Record.isFolder, sort, beq_self_eq_true, if_pos rfl] at done
    obtain ⟨place, mode, ends, _⟩ := Store.of_removeTree (Prod.ext done rfl)
    have held : s.isFolder record.path = true := Store.isFolder_of_stat (Store.stat_follow (by simp) ends)
    rw [Store.holds, held] at gone
    cases gone
  · rw [change, sort] at done
    cases kind with
    | file =>
        have held : s.isFile record.path = true := Store.isFile_of_copyFile done
        rw [Store.holds, held] at gone
        cases gone
    | folder =>
        have held : s.isFolder record.path = true := Store.isFolder_of_copyTree done
        rw [Store.holds, held] at gone
        cases gone

theorem after_of_success (records : List Record) : ∀ (s : Store) {items : List (Level × String)},
    (gather (b.guardedStep kind session) records s).1 = some items →
      (∀ item ∈ items, item.1 = .success) →
        (gather (b.guardedStep kind session) records s).2 = b.after session records s ∧
          ∀ change ∈ b.results session records s, change.2 = .ok () := by
  induction records with
  | nil => exact fun s _ _ _ => ⟨rfl, by simp [results]⟩
  | cons record rest ih =>
      intro s items told succeed
      rcases taken : b.guardedStep kind session record s with ⟨_ | level, t⟩
      · rw [gather, taken] at told
        cases told
      rw [gather_cons taken] at told ⊢
      obtain ⟨later, told', rfl⟩ := Option.map_eq_some_iff.mp told
      rw [List.forall_mem_cons] at succeed
      obtain ⟨rfl, others⟩ := succeed
      have done : b.change session record s = (.ok (), t) := by
        rw [guardedStep] at taken
        split at taken
        · rw [step] at taken
          rcases changed : b.change session record s with ⟨f | _, t'⟩ <;> rw [changed] at taken
          · dsimp only at taken
            split at taken <;> cases taken
          · cases taken
            rfl
        · cases taken
      obtain ⟨left, each⟩ := ih t told' others
      rw [after, results, done]
      exact ⟨left, List.forall_mem_cons.mpr ⟨rfl, each⟩⟩

end Batch

namespace Statement

variable {settings : Settings} {execute? : Option (String → World → Ran)} {s : Statement} {w : World}
  {r : Run}

theorem effect_of_refused {e : CommandError} {log : List LogEntry}
    (refused : (Action.perform settings execute? s).on { toWorld := w } =
      (.error (.command e), { toWorld := { w with log } })) :
    (run settings execute? s w).effect = (some [], w.store) := by
  rw [errorCode_of_refused refused]
  rfl

theorem effect_of_ok (done : (Action.perform settings execute? s).on { toWorld := w } = (.ok (), r)) :
    (run settings execute? s w).effect = (some (itemsOf r.events), r.store) := by
  rw [run_of_ok done]
  rfl

theorem effect_of_stray {f : Fault} (stray : f.Stray)
    (stopped : (Action.perform settings execute? s).on { toWorld := w } = (.error f, r)) :
    (run settings execute? s w).effect = (none, r.store) := by
  rw [run_of_stray stray stopped]
  rfl

/-- A statement that comes to turns on records says and leaves what their steps do. -/
theorem effect_of_gather {turn : Record → Action Unit} {step : Record → Store → Option Level × Store}
    {records : List Record} {r : Run}
    (comes : (Action.perform settings execute? s).on { toWorld := w } = (records.forM turn).on r)
    (bare : itemsOf r.events = [])
    (each : ∀ record ∈ records, ∀ r' : Run, r'.session = r.session →
      Action.Takes (turn record) record.name (step record r'.store) r') :
    (run settings execute? s w).effect = gather step records r.store := by
  obtain ⟨r', left, ends⟩ := Action.on_gather turn step records each r rfl
  rw [← comes] at ends
  cases told : (gather step records r.store).1 with
  | none =>
      rw [told] at ends
      obtain ⟨f, stray, stopped⟩ := ends
      rw [effect_of_stray stray stopped, left]
      exact Prod.ext told.symm rfl
  | some items =>
      rw [told] at ends
      obtain ⟨done, items'⟩ := ends
      rw [effect_of_ok done, items', bare, List.nil_append, left]
      exact Prod.ext told.symm rfl

end Statement

namespace Batch

variable (settings : Settings) (execute? : Option (String → World → Ran)) (b : Batch) {kind : Kind}
  {w : World} {records : List Record} {notes : List LogEntry}

theorem selection_all
    (listed : listFolder w.store w.session.folder (some kind) = .ok (records, notes)) :
    Source.selection {} settings w.session w.store kind none = .ok ((records, []), notes) := by
  have folder : Source.folderIn? {} w.session w.store = some w.session.folder := rfl
  rw [Source.selection, folder]
  dsimp only
  rw [listed]
  rfl

theorem on_perform_all
    (listed : listFolder w.store w.session.folder (some kind) = .ok (records, notes)) :
    (Action.perform settings execute? (b.statement kind {})).on { toWorld := w } =
      (records.forM (b.turn kind)).on (({ toWorld := w } : Run).listed settings.matcher notes []) := by
  have begun := Action.on_selection (r := { toWorld := w }) (selection_all settings listed)
  rw [perform_eq, Action.on_bind, begun]

theorem on_perform_single
    (listed : listFolder w.store w.session.folder (some kind) = .ok (records, notes)) :
    ∃ r : Run, r.store = w.store ∧ r.session = w.session ∧ itemsOf r.events = [] ∧
      (Action.perform settings execute? (b.single kind)).on { toWorld := w } =
        (records.forM (Action.targetTurn kind fun name => b.named kind name)).on r := by
  rw [perform_single, Action.forTargets_wildcard, Action.on_listingHere, listed]
  cases records with
  | nil => exact ⟨_, rfl, rfl, rfl, rfl⟩
  | cons first rest => exact ⟨_, rfl, rfl, rfl, rfl⟩

theorem effects_of_unlisted {u : Unlisted}
    (halted : listFolder w.store w.session.folder (some kind) = .error u) :
    ∃ told, (Statement.run settings execute? (b.single kind) w).effect = (told, w.store) ∧
      (Statement.run settings execute? (b.statement kind {}) w).effect = (told, w.store) := by
  have folder : Source.folderIn? {} w.session w.store = some w.session.folder := rfl
  have begun : Source.selection {} settings w.session w.store kind none = .error u := by
    rw [Source.selection, folder]
    dsimp only
    rw [halted]
  have single : (Action.perform settings execute? (b.single kind)).on { toWorld := w } =
      (.error u.fault, { toWorld := { w with log := w.log ++ u.notes } }) := by
    rw [perform_single, Action.forTargets_wildcard, Action.on_listingHere, halted]
  have stopped := Action.on_selection_of_stopped (r := { toWorld := w }) begun
  have all : (Action.perform settings execute? (b.statement kind {})).on { toWorld := w } =
      (.error u.fault, { toWorld := { w with log := w.log ++ u.notes } }) := by
    rw [perform_eq, Action.on_bind, stopped]
  rcases Source.fault_of_selection begun with ⟨e, refused⟩ | stray
  · rw [refused] at single all
    exact ⟨_, Statement.effect_of_refused single, Statement.effect_of_refused all⟩
  · exact ⟨_, Statement.effect_of_stray stray single, Statement.effect_of_stray stray all⟩

section
variable (normal : w.session.Normal) (sound : w.store.Sound)
  (listed : listFolder w.store w.session.folder (some kind) = .ok (records, notes))
include normal sound listed

theorem effects_of_listed :
    (Statement.run settings execute? (b.single kind) w).effect =
        gather (b.guardedStep kind w.session) records w.store ∧
      (Statement.run settings execute? (b.statement kind {}) w).effect =
        gather (b.step w.session) records w.store := by
  obtain ⟨place, mode, ends, _⟩ := mem_listFolder listed
  constructor
  · obtain ⟨r, store, session, bare, comes⟩ := on_perform_single settings execute? b listed
    rw [← store]
    refine Statement.effect_of_gather comes bare fun record member r' known => ?_
    have stands := sound.stands ends listed member
    rw [session] at known
    rw [← known] at stands normal ⊢
    exact takes_targetTurn stands normal (plain_of_mem_listFolder listed member)
  · let r : Run := ({ toWorld := w } : Run).listed settings.matcher notes []
    have store : r.store = w.store := Run.listed_store _ _ _ _
    have session : r.session = w.session := Run.listed_session _ _ _ _
    have bare : itemsOf r.events = [] := by
      rw [Run.listed_events]
      rfl
    rw [← store]
    refine Statement.effect_of_gather (on_perform_all settings execute? b listed) bare
      fun record member r' known => ?_
    rw [← session, ← known]
    exact takes_turn (plain_of_mem_listFolder listed member)

end

/-- Whether one of the records would be stale in its turn. -/
def MeetsStale (b : Batch) (kind : Kind) (w : World) : Prop :=
  ∃ records notes, listFolder w.store w.session.folder (some kind) = .ok (records, notes) ∧
    MetInTurn (b.Stale kind w.session) (fun record s => (b.change w.session record s).2) records w.store

theorem gather_of_toNul {session : Session} {place : Place} {folder : String} {s : Store}
    (normal : session.Normal) (stands : ∀ record ∈ records, record.Stands s folder place kind)
    (outside : b.ToNul session) :
    gather (b.guardedStep kind session) records s = gather (b.step session) records s := by
  cases records with
  | nil => rfl
  | cons first rest =>
      have own := stands first (List.mem_cons_self ..)
      have stopped : b.step session first s = (none, s) := by
        rw [step, change_of_toNul own.clean normal outside s]
        rfl
      have guarded : b.guardedStep kind session first s = (none, s) := by
        rw [guardedStep, own.leads, if_pos rfl, stopped]
      rw [gather, gather, guarded, stopped]

theorem step_goes {session : Session} {place : Place} {folder : String} {whole s : Store}
    {record : Record} (stands : record.Stands whole folder place kind)
    (plain : hasNul record.path = false) (normal : session.Normal) (within : ¬ b.ToNul session)
    (other : ¬ b.Copies kind) : (b.step session record s).1.isSome = true := by
  have refusable : Store.Refusable (b.change session record s).1 :=
    refusable_change plain fun stray => other (held_of_stray stands plain normal within stray).1
  rw [step]
  rcases changed : b.change session record s with ⟨f | _, t⟩
  · rw [changed] at refusable
    simp [refusable f rfl]
  · rfl

theorem agrees_iff (normal : w.session.Normal) (sound : w.store.Sound) :
    (Statement.run settings execute? (b.single kind) w).effect =
      (Statement.run settings execute? (b.statement kind {}) w).effect ↔ ¬ b.MeetsStale kind w := by
  rcases listed : listFolder w.store w.session.folder (some kind) with u | ⟨records, notes⟩
  · obtain ⟨told, single, all⟩ := effects_of_unlisted settings execute? b listed
    refine iff_of_true (single.trans all.symm) ?_
    rintro ⟨records, notes, found, _⟩
    rw [listed] at found
    cases found
  · obtain ⟨place, mode, ends, _⟩ := mem_listFolder listed
    have stands := fun record (member : record ∈ records) => sound.stands ends listed member
    have plain := fun record (member : record ∈ records) => plain_of_mem_listFolder listed member
    obtain ⟨single, all⟩ := effects_of_listed settings execute? b normal sound listed
    have meets : b.MeetsStale kind w ↔ MetInTurn (b.Stale kind w.session)
        (fun record s => (b.change w.session record s).2) records w.store := by
      constructor
      · rintro ⟨records', notes', found, met⟩
        rw [listed] at found
        cases found
        exact met
      · exact fun met => ⟨records, notes, listed, met⟩
    rw [single, all, meets]
    by_cases outside : b.ToNul w.session
    · refine iff_of_true (gather_of_toNul b normal stands outside) ?_
      refine not_metInTurn (fun record member s => ?_) w.store
      rintro ⟨_, done⟩
      rw [change_of_toNul (stands record member).clean normal outside s] at done
      cases done
    have agree := fun record member s =>
      guardedStep_eq_iff (s := s) (stands record member) (plain record member) normal outside
    by_cases copies : b.Copies kind
    · -- no record is ever stale, so each step is the same, also one that stops the others
      have fresh (record) (member : record ∈ records) (s) : ¬ b.Stale kind w.session record s :=
        not_stale (stands record member).sort copies
      exact iff_of_true
        (gather_congr (fun record member s => (agree record member s).mpr (fresh record member s)) w.store)
        (not_metInTurn fresh w.store)
    · exact gather_guardedStep_eq_iff records agree
        (fun record member s => step_goes b (stands record member) (plain record member) normal outside
          copies) w.store

/-! Deletions of files. -/

/-- A deletion of files leaves the times of what stands elsewhere in the folder or below. -/
theorem timesAt_after_deletions {folder : String} {place q : Place} {session : Session} {whole : Store}
    (stands : ∀ record ∈ records, record.Stands whole folder place .file) (apart : q ≠ place)
    (others : ∀ record ∈ records, q ≠ place ++ [record.name]) : ∀ {s : Store},
    Store.Keeps s whole → (∀ change ∈ delete.results session records s, change.2 = .ok ()) →
      (delete.after session records s).timesAt q = s.timesAt q := by
  induction records with
  | nil => exact fun _ _ => rfl
  | cons record rest ih =>
      intro s keeps done
      rw [results, List.forall_mem_cons] at done
      obtain ⟨first, later⟩ := done
      have own := stands record (by simp)
      obtain ⟨e, there, leads⟩ := own.own
      rcases deleted : delete.change session record s with ⟨x, t⟩
      rw [deleted] at first later
      dsimp only at first later
      subst first
      have removed := deleted
      rw [change_delete, own.sort] at removed
      obtain ⟨p, e', ends, _, rfl⟩ := Store.of_removeFile removed
      obtain ⟨_, ends', _⟩ := keeps.stat ends
      rw [leads] at ends'
      cases ends'
      have keeps' : Store.Keeps (s.erase (place ++ [record.name])) whole :=
        .trans (Store.keeps_of_get? fun q => Store.get?_erase s _ q) keeps
      rw [after, deleted, ih (fun other member => stands other (List.mem_cons_of_mem _ member))
        (fun other member => others other (List.mem_cons_of_mem _ member)) keeps' later]
      exact s.timesAt_erase (others record (by simp)) (by rwa [List.dropLast_concat])

end Batch

/-- In a proper world the wildcard and the statement about all entries say the same of each item and
leave the same store just if no record has gone stale in its turn. A folder that is deleted never
has, and nothing that is copied has. If every file that the wildcard deletes is a success, no file is
left. -/
theorem wildcard_agrees_iff (settings : Settings) (execute? : Option (String → World → Ran))
    {w : World} (proper : w.Proper) :
    (∀ (b : Batch) (kind : Kind),
      (Statement.run settings execute? (b.single kind) w).effect =
        (Statement.run settings execute? (b.statement kind {}) w).effect ↔ ¬ b.MeetsStale kind w) ∧
      (∀ (b : Batch) (kind : Kind),
        b = .delete ∧ kind = .folder ∨ (∃ target, b = .transfer .copy target) →
          ¬ b.MeetsStale kind w) ∧
      ∀ items left, (Statement.run settings execute? (.delete .file wildcard) w).effect =
          (some items, left) → (∀ item ∈ items, item.1 = .success) →
        ∀ records notes, listFolder left w.session.folder (some .file) = .ok (records, notes) →
          records = [] := by
  obtain ⟨normal, sound⟩ := proper
  refine ⟨fun b kind => ?_, fun b kind safe => ?_, fun items left ran succeed records notes listed' => ?_⟩
  · exact Batch.agrees_iff settings execute? b normal sound
  · rintro ⟨records, notes, listed, met⟩
    obtain ⟨place, mode, ends, _⟩ := mem_listFolder listed
    refine not_metInTurn (fun record member s => ?_) w.store met
    exact Batch.not_stale (sound.stands ends listed member).sort safe
  · have single : Batch.delete.single .file = .delete .file wildcard := rfl
    rw [← single] at ran
    rcases listed : listFolder w.store w.session.folder (some .file) with u | ⟨all, notes'⟩
    · obtain ⟨told, halted, _⟩ := Batch.effects_of_unlisted settings execute? .delete listed
      rw [halted] at ran
      cases ran
      rw [listed] at listed'
      cases listed'
    · obtain ⟨place, mode, ends, _⟩ := mem_listFolder listed
      have stands := fun record (member : record ∈ all) => sound.stands ends listed member
      rw [(Batch.effects_of_listed settings execute? .delete normal sound listed).1] at ran
      obtain ⟨told, rfl⟩ := Prod.ext_iff.mp ran
      obtain ⟨after, done⟩ := Batch.after_of_success all w.store told succeed
      rw [after] at listed'
      have gone := Batch.get?_after_deletions sound all stands (.refl _) done
      refine sound.none_listed ends listed gone (fun q e status there status' => ?_) listed'
      cases e with
      | folder mode => cases status'
      | link target => cases status'
      | file bytes mode' modified =>
          rw [gone] at there
          split at there
          · cases there
          · next outside =>
              have apart : q ≠ place := by
                rintro rfl
                rw [Store.get?_of_stat ends] at there
                cases there
              have same := Batch.timesAt_after_deletions stands apart
                (fun record member eq => outside ⟨record, member, eq ▸ List.prefix_refl _⟩) (.refl _) done
              rw [Store.status?, same] at status'
              exact status'

def oneFolder : World where
  store := { now := ⟨0⟩, entries := [(["work", "d", "x.txt"], .file ⟨#[120]⟩ 420 ⟨0⟩), (["work", "d"], .folder 493),
    (["work"], .folder 493), ([], .folder 493)] }
  session := .start ""

theorem wildcard_agrees_on_folders :
    oneFolder.Proper ∧
      (Statement.run {} none (.delete .folder wildcard) oneFolder).effect =
        (Statement.run {} none (.deleteAll .folder {}) oneFolder).effect := by
  have proper : oneFolder.Proper := World.proper_start (Store.sound_of_entries (by decide)) ""
  obtain ⟨agrees, safe, _⟩ := wildcard_agrees_iff {} none proper
  exact ⟨proper, (agrees .delete .folder).mpr (safe .delete .folder (.inl ⟨rfl, rfl⟩))⟩

/-- A file, and a link to it that is listed after it. -/
def linkedFile : World where
  store := { now := ⟨0⟩, entries := [(["work", "a.txt"], .file ⟨#[120]⟩ 420 ⟨0⟩), (["work", "b.txt"], .link "a.txt"),
    (["work"], .folder 493), ([], .folder 493)] }
  session := .start ""

/-- The wildcard no longer finds the link once the file is gone. -/
theorem wildcard_differs_on_link :
    (execute {} "DELETE FILE \"*\"" linkedFile).effect ≠ (execute {} "DELETE FILES" linkedFile).effect := by
  have normal : linkedFile.session.Normal := Session.normal_start ""
  have sound : linkedFile.store.Sound := Store.sound_of_entries (by decide +kernel)
  have names : linkedFile.store.names ["work"] = ["a.txt", "b.txt"] := by
    have gathered : linkedFile.store.entries.filterMap (fun q => Store.nameIn? ["work"] q.1) =
        ["a.txt", "b.txt"] := by decide +kernel
    rw [Store.names, gathered]
    exact List.mergeSort_of_pairwise (by decide +kernel)
  have ends : linkedFile.store.stat true "/work" = .ok (["work"], .folder 493) := by decide +kernel
  let first := Record.ofEntry "/work/a.txt" .file 1 420 ⟨0⟩ ⟨0⟩
  let second := Record.ofEntry "/work/b.txt" .file 1 420 ⟨0⟩ ⟨0⟩
  have folder : linkedFile.session.folder = "/work" := by decide +kernel
  have listed : listFolder linkedFile.store linkedFile.session.folder (some .file) =
      .ok ([first, second], []) := by
    have records : recordsOf linkedFile.store "/work" ["a.txt", "b.txt"] = .ok ([first, second], []) := by
      decide +kernel
    rw [folder, listFolder, Store.namesAt, ends]
    simp only [bind, Except.bind, pure, Except.pure]
    rw [names, records]
    decide +kernel
  have stale : Batch.delete.MeetsStale .file linkedFile :=
    ⟨_, _, listed, .inr (.inl ⟨by decide +kernel, by decide +kernel⟩)⟩
  have parsed : Statement.parse "DELETE FILE \"*\"" = Batch.delete.single .file := by decide +kernel
  have parsed' : Statement.parse "DELETE FILES" = Batch.delete.statement .file {} := by decide +kernel
  have line (text : String) : execute {} text linkedFile =
      Statement.run {} (Statement.opening {} 8) (Statement.parse text) linkedFile := by
    rw [← Statement.executeBelow_eq_run]
    rfl
  rw [line, line, parsed, parsed']
  intro same
  exact (Batch.agrees_iff {} (Statement.opening {} 8) .delete normal sound).mp same stale

end FileQuery
