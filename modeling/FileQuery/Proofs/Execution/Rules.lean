import FileQuery.Proofs.Execution.Refused
import FileQuery.Proofs.Store.Safe

/-! Properties of work that go through. The work of a statement about entries is put together from a
few steps; a property that work keeps where it is put together is one of what only looks at the store
if the steps that leave it have the property (`Steps`), and of the whole if changes have it as well
(`Rules.perform`). -/
set_option autoImplicit false
namespace FileQuery

/-- Whether a statement is about entries, so that it neither moves the session nor runs a script. -/
def Statement.AboutEntries : Statement → Prop
  | .load _ | .use _ | .drop => False
  | _ => True

namespace Action

/-- A property that the steps of statements about entries have when they leave the store as it is, and
that work keeps where it is put together. What is done with the run at hand never depends on the log. -/
structure Steps (P : ∀ {α : Type}, Action α → Prop) : Prop where
  pure : ∀ {α : Type} (x : α), P (Pure.pure x : Action α)
  throw : ∀ {α : Type} (f : Fault), P (MonadExcept.throw f : Action α)
  bind : ∀ {α β : Type} {a : Action α} {k : α → Action β}, P a → (∀ x, P (k x)) → P (a >>= k)
  tryCatch : ∀ {α : Type} {a : Action α} {handle : Fault → Action α},
    P a → (∀ f, P (handle f)) → P (MonadExcept.tryCatch a handle : Action α)
  get : ∀ {β : Type} {k : Run → Action β},
    (∀ (r : Run) (log : List LogEntry), k { r with log } = k r) → (∀ r, P (k r)) → P (get >>= k)
  emit : ∀ (level : Level) (message : String) (item : Option String), P (emit level message item)
  note : ∀ entries : List LogEntry, P (note entries)
  records : ∀ records : List Record,
    P (modify fun r => { r with records := some records } : Action Unit)

/-- A property that the steps of all statements about entries have. Every change upholds what all
changes do. -/
structure Rules (P : ∀ {α : Type}, Action α → Prop) : Prop extends Steps P where
  change : ∀ {c : Store.Change}, c.Safe → P (change c)
  edit : ∀ (name : String) (settings : Settings), P (editFile name settings)

namespace Steps

variable {P : ∀ {α : Type}, Action α → Prop} (steps : Steps P)
include steps

/-! Steps that are put together. -/

section
variable {α β : Type}

theorem refuse (e : CommandError) : P (refuse e : Action α) := steps.throw (.command e)

theorem resolve (parts : List String) : P (resolve parts) :=
  steps.get (fun _ _ => rfl) fun _ => steps.pure _

theorem present (path : String) (kind : Option Kind) : P (present path kind) := by
  refine steps.get (fun _ _ => rfl) fun r => ?_
  rcases kind with _ | ⟨_ | _⟩ <;> exact steps.pure _

theorem look (f : Store → Except Store.Fault α) : P (look f) := by
  refine steps.get (fun _ _ => rfl) fun r => ?_
  cases f r.store with
  | ok x => exact steps.pure x
  | error e => exact steps.throw _

theorem listing (folder : String) (kind : Option Kind) : P (listing folder kind) := by
  refine steps.get (fun _ _ => rfl) fun r => ?_
  rcases listFolder r.store folder kind with u | ⟨records, notes⟩
  · exact steps.bind (steps.note u.notes) fun _ => steps.throw u.fault
  · exact steps.bind (steps.note notes) fun _ => steps.pure records

theorem listingHere {k : List Record → Action β} (kind : Option Kind)
    (rest : ∀ records, P (k records)) :
    P (MonadState.get >>= fun r : Run => Action.listing r.session.folder kind >>= k) :=
  steps.get (fun _ _ => rfl) fun _ => steps.bind (steps.listing _ kind) rest

theorem forM {work : α → Action Unit} (each : ∀ x, P (work x)) (items : List α) :
    P (items.forM work) := by
  induction items with
  | nil => exact steps.pure ()
  | cons x rest ih => exact steps.bind (each x) fun _ => ih

theorem mapM {work : α → Action β} (each : ∀ x, P (work x)) (items : List α) :
    P (items.mapM work) := by
  induction items with
  | nil => exact steps.pure []
  | cons x rest ih =>
      rw [List.mapM_cons]
      exact steps.bind (each x) fun _ => steps.bind ih fun _ => steps.pure _

theorem guardItem {concerns : Store.Fault → Bool} {report : String → Action Unit}
    {work : Action Unit} (reports : ∀ message, P (report message)) (body : P work) :
    P (guardItem concerns report work) := by
  refine steps.tryCatch body fun f => ?_
  cases f with
  | store e =>
      dsimp only
      split
      · exact reports _
      · exact steps.throw _
  | _ => exact steps.throw _

end

/-! Statements about named entries. -/

theorem missing (kind : Kind) (name : String) : P (missing kind name) := steps.emit _ _ _

theorem targetTurn {work : String → Action Unit} (each : ∀ name, P (work name)) (kind : Kind)
    (record : Record) : P (targetTurn kind work record) :=
  steps.guardItem (fun _ => steps.emit _ _ _) (each record.name)

theorem forTargets {work : String → Action Unit} (each : ∀ name, P (work name)) (kind : Kind)
    (name : String) : P (forTargets kind name work) := by
  by_cases star : name = wildcard
  · subst star
    rw [forTargets_wildcard]
    refine steps.listingHere _ fun records => ?_
    have turns : P (records.forM (Action.targetTurn kind work)) :=
      steps.forM (steps.targetTurn each kind) records
    dsimp only
    split
    · exact steps.bind (steps.emit _ _ _) fun _ => turns
    · exact turns
  · rw [Action.forTargets, if_pos star]
    exact each name

theorem readFile (name : String) (settings : Settings) : P (readFile name settings) := by
  refine steps.forTargets (fun name => ?_) .file name
  refine steps.bind (steps.resolve _) fun path => steps.bind (steps.present _ _) fun held => ?_
  split
  · exact steps.bind (steps.look _) fun _ => steps.emit _ _ _
  · exact steps.missing _ _

theorem mergePart (settings : Settings) (name : String) : P (mergePart settings name) := by
  refine steps.bind (steps.resolve _) fun path => steps.bind (steps.present _ _) fun held => ?_
  split
  · refine steps.tryCatch (steps.bind (steps.look _) fun _ => steps.pure _) fun f => ?_
    cases f with
    | store e =>
        dsimp only
        split
        · exact steps.bind (steps.emit _ _ _) fun _ => steps.pure _
        · exact steps.throw _
    | _ => exact steps.throw _
  · exact steps.bind (steps.emit _ _ _) fun _ => steps.pure _

/-! Statements about all entries of a folder. -/

theorem list (kind : Option Kind) : P (list kind) := by
  refine steps.listingHere kind fun records => ?_
  have shown := steps.records records
  dsimp only
  split
  · exact steps.bind (steps.emit _ _ _) fun _ => shown
  · exact steps.bind (steps.emit _ _ _) fun _ => shown

theorem count (kind : Option Kind) : P (count kind) :=
  steps.listingHere kind fun _ => steps.emit _ _ _

theorem sourceRecords (kind : Kind) (source : Source) : P (sourceRecords kind source) := by
  have here : P (MonadState.get >>= fun r : Run => Action.listing r.session.folder (some kind)) :=
    steps.get (fun _ _ => rfl) fun _ => steps.listing _ _
  rw [Action.sourceRecords]
  split
  · split
    · exact here
    · refine steps.bind (steps.resolve _) fun path => steps.get (fun _ _ => rfl) fun r => ?_
      split
      · exact steps.listing _ _
      · exact steps.refuse _
  · exact here

theorem selected (settings : Settings) (source : Source) (order : Option SortSpec)
    (records : List Record) : P (selected settings source order records) := by
  refine steps.get (fun _ _ => rfl) fun r => ?_
  split
  · exact steps.refuse _
  · exact steps.bind (steps.forM (fun _ => steps.emit _ _ _) _) fun _ => steps.pure _

theorem recordTurn {report : Record → String → String} {done work : Record → Action Unit}
    (reports : ∀ record, P (done record)) (each : ∀ record, P (work record)) (record : Record) :
    P (recordTurn report done work record) := by
  refine steps.bind (steps.tryCatch (steps.bind (each record) fun _ => steps.pure _) fun f => ?_)
    fun failed => ?_
  · cases f with
    | store e =>
        dsimp only
        split
        · exact steps.pure _
        · exact steps.throw _
    | _ => exact steps.throw _
  · cases failed with
    | some cause => exact steps.emit _ _ _
    | none => exact reports record

theorem selectShown (kind : Kind) (source : Source) (order : Option SortSpec) (settings : Settings) :
    P (selectRecords kind source order none settings) :=
  steps.bind (steps.sourceRecords kind source) fun records =>
    steps.bind (steps.selected settings source order records) fun kept =>
      steps.bind (steps.records kept) fun _ => steps.emit _ _ _

end Steps

theorem safe_transferChange (mode : Transfer) (kind : Kind) (source destination : String) :
    (transferChange mode kind source destination).Safe := by
  intro R custody
  cases mode with
  | move => exact custody.move source destination
  | copy =>
      cases kind with
      | folder => exact custody.copyTree source destination
      | file => exact custody.copyFile source destination

namespace Rules

variable {P : ∀ {α : Type}, Action α → Prop} (rules : Rules P)
include rules

theorem reported {c : Store.Change} (safe : c.Safe) (level : Level) (message : String)
    (item : Option String) : P (do Action.change c; Action.emit level message item : Action Unit) :=
  rules.bind (rules.change safe) fun _ => rules.emit _ _ _

/-! Statements about named entries. -/

theorem create (kind : Kind) (name : String) (settings : Settings) :
    P (create kind name settings) := by
  refine rules.bind (rules.resolve _) fun path => rules.bind (rules.present _ _) fun held => ?_
  split
  · exact rules.emit _ _ _
  · cases kind with
    | folder => exact rules.reported (fun _ custody => custody.makeFolder path) _ _ _
    | file => exact rules.reported (fun _ custody => custody.writeText path [] settings.encoding) _ _ _

theorem writeFile (name content : String) (settings : Settings) :
    P (writeFile name content settings) := by
  have written (points : Text.CodePoints) : P (do
      Action.change (Store.writeText (← Action.resolve [name]) points settings.encoding)
      Action.emit .success ("File \"" ++ name ++ "\" overwritten.")) :=
    rules.bind (rules.resolve _) fun path =>
      rules.reported (fun _ custody => custody.writeText path points _) _ _ _
  rw [Action.writeFile]
  cases Text.decodeEscapes content.toList with
  | ok points => exact rules.bind (rules.pure points) written
  | error e =>
      exact rules.bind (rules.emit _ _ _) fun _ => rules.bind (rules.pure _) written

theorem appendFile (name content : String) (settings : Settings) :
    P (appendFile name content settings) := by
  rw [Action.appendFile]
  refine rules.bind (rules.resolve _) fun path => rules.bind (rules.change ?_) fun _ =>
    rules.emit _ _ _
  exact fun _ custody => custody.appendText path _ _

theorem delete (kind : Kind) (name : String) : P (delete kind name) := by
  refine rules.forTargets (fun name => ?_) kind name
  refine rules.bind (rules.resolve _) fun path => rules.bind (rules.present _ _) fun held => ?_
  split
  · cases kind with
    | folder => exact rules.reported (fun _ custody => custody.removeTree path) _ _ _
    | file => exact rules.reported (fun _ custody => custody.removeFile path) _ _ _
  · exact rules.missing _ _

theorem transfer (mode : Transfer) (kind : Kind) (name target : String) :
    P (transfer mode kind name target) := by
  refine rules.forTargets (fun name => ?_) kind name
  refine rules.bind (rules.resolve _) fun source => rules.bind (rules.present _ _) fun held => ?_
  split
  · exact rules.bind (rules.resolve _) fun _ =>
      rules.reported (safe_transferChange _ _ _ _) _ _ _
  · exact rules.missing _ _

theorem rename (kind : Kind) (old new : String) : P (rename kind old new) := by
  refine rules.bind (rules.resolve _) fun source => rules.bind (rules.present _ _) fun held => ?_
  split
  · exact rules.bind (rules.resolve _) fun destination =>
      rules.reported (fun _ custody => custody.move source destination) _ _ _
  · exact rules.emit _ _ _

theorem chmod (name mode : String) : P (chmod name mode) := by
  refine rules.bind (rules.resolve _) fun path => rules.bind (rules.present _ _) fun held => ?_
  split
  · exact rules.reported (fun _ custody => custody.setMode path _) _ _ _
  · exact rules.emit _ _ _

theorem merge (sources : List String) (destination : String) (settings : Settings) :
    P (merge sources destination settings) :=
  rules.bind (rules.mapM (rules.mergePart settings) sources) fun _ =>
    rules.bind (rules.resolve _) fun path =>
      rules.reported (fun _ custody => custody.writeText path _ _) _ _ _

/-! Statements about all entries of a folder. -/

theorem deleteAll (kind : Kind) (source : Source) (settings : Settings) :
    P (deleteAll kind source settings) := by
  refine rules.bind (rules.sourceRecords kind source) fun records =>
    rules.bind (rules.selected settings source none records) fun kept => ?_
  rw [forRecords_eq]
  refine rules.forM (rules.recordTurn (fun _ => rules.emit _ _ _) fun record =>
    rules.change ?_) kept
  split
  · exact fun _ custody => custody.removeTree _
  · exact fun _ custody => custody.removeFile _

theorem transferAll (mode : Transfer) (kind : Kind) (target : String) (source : Source)
    (settings : Settings) : P (transferAll mode kind target source settings) := by
  refine rules.bind (rules.sourceRecords kind source) fun records =>
    rules.bind (rules.selected settings source none records) fun kept => ?_
  rw [forRecords_eq]
  exact rules.forM (rules.recordTurn (fun _ => rules.emit _ _ _) fun _ =>
    rules.bind (rules.resolve _) fun _ => rules.change (safe_transferChange _ _ _ _)) kept

theorem selectRecords (kind : Kind) (source : Source) (order : Option SortSpec)
    (into : Option String) (settings : Settings) :
    P (selectRecords kind source order into settings) := by
  cases into with
  | none => exact rules.selectShown kind source order settings
  | some path =>
      refine rules.bind (rules.sourceRecords kind source) fun records =>
        rules.bind (rules.selected settings source order records) fun kept => ?_
      refine rules.bind ?_ fun style => ?_
      · cases settings.style with
        | ok style => exact rules.pure style
        | error f => exact rules.throw f
      · cases Report.render style path kept with
        | error cause => exact rules.throw _
        | ok text =>
            exact rules.bind (rules.resolve _) fun _ => rules.get (fun _ _ => rfl) fun _ =>
              rules.reported (fun _ custody => custody.writeText _ _ _) _ _ _

/-- The work of every statement about entries has a property that goes through. -/
theorem perform {settings : Settings} {execute? : Option (String → World → Ran)} {s : Statement}
    (entries : s.AboutEntries) : P (perform settings execute? s) := by
  cases s with
  | load name => exact entries.elim
  | use folder => exact entries.elim
  | drop => exact entries.elim
  | create kind name => exact rules.create kind name settings
  | read name => exact rules.readFile name settings
  | edit name => exact rules.edit name settings
  | write name content => exact rules.writeFile name content settings
  | append name content => exact rules.appendFile name content settings
  | delete kind name => exact rules.delete kind name
  | list kind => exact rules.list kind
  | count kind => exact rules.count kind
  | transfer mode kind name target => exact rules.transfer mode kind name target
  | rename kind old new => exact rules.rename kind old new
  | chmod name mode => exact rules.chmod name mode
  | merge sources destination => exact rules.merge sources destination settings
  | deleteAll kind source => exact rules.deleteAll kind source settings
  | transferAll mode kind target source => exact rules.transferAll mode kind target source settings
  | select kind source order into => exact rules.selectRecords kind source order into settings
  | unknown text reason => exact rules.refuse _

end Rules

/-! What a blind view shows. -/

/-- Keeps what a view shows, whatever it meets and gives. -/
def Keeps {α σ : Type} (see : Run → σ) (a : Action α) : Prop := ∀ r, see (a.on r).2 = see r

section
variable {α β σ : Type} {see : Run → σ} {a : Action α}

theorem Keeps.bind {k : α → Action β} (first : Keeps see a) (rest : ∀ x, Keeps see (k x)) :
    Keeps see (a >>= k) := by
  intro r
  have before := first r
  rw [on_bind]
  rcases done : a.on r with ⟨f | x, r'⟩ <;> rw [done] at before
  · exact before
  · exact (rest x r').trans before

theorem Keeps.tryCatch {handle : Fault → Action α} (body : Keeps see a)
    (handled : ∀ f, Keeps see (handle f)) : Keeps see (tryCatch a handle : Action α) := by
  intro r
  have before := body r
  rw [on_tryCatch]
  rcases done : a.on r with ⟨f | x, r'⟩ <;> rw [done] at before
  · exact (handled f r').trans before
  · exact before

theorem rules_keeps (blind : Run.Blind see) : Rules (Keeps see) where
  pure _ _ := rfl
  throw _ _ := rfl
  bind := Keeps.bind
  tryCatch := Keeps.tryCatch
  get _ rest r := rest r r
  emit level message item r := blind.reported r level message item
  note entries r := blind.log r _
  change _ r := by
    rw [on_change]
    exact blind.store r _
  records _ r := blind.records r _
  edit name settings r := (guarded_editFile blind name settings r).kept

end

end Action

end FileQuery
