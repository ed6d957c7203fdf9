import FileQuery.Proofs.Execution.Aborted
import FileQuery.Proofs.Execution.Rules
import FileQuery.Proofs.Session

/-! What holds in every world that lines are run in: the session is in a normalised folder, and every
entry of the store has a clean name and stands in a folder. What all changes uphold is upheld by each
line, whatever it is and whether it succeeds, fails, is aborted or is stopped. -/
set_option autoImplicit false
namespace FileQuery

structure World.Proper (w : World) : Prop where
  normal : w.session.Normal
  sound : w.store.Sound

variable {R : Store → Store → Prop}

namespace Editor

variable (encoding : Store.Encoding)

theorem store_loadFile (file : String) (t : Step) :
    (loadFile encoding file t).2.store = t.store := by
  unfold loadFile
  dsimp only
  split
  · rfl
  · split
    · rfl
    · split <;> rfl

section
variable (upkeep : Store.Upkeep R)
include upkeep

theorem upholds_obey (c : Command) (t : Step) : R t.store (obey encoding c t).2.store := by
  cases c with
  | save =>
      have kept := upkeep.writeText t.editor.path
        (Text.CodePoints.ofString (String.intercalate "\n" t.editor.buffer)) encoding t.store
      rw [obey]
      split <;> next same => rw [same] at kept; exact kept
  | load file =>
      have same := store_loadFile encoding file t
      rw [obey]
      split <;> next loaded => rw [loaded] at same; exact same ▸ upkeep.refl t.store
  | exit => exact upkeep.refl t.store
  | print => exact upkeep.refl t.store
  | undo => exact upkeep.refl t.store
  | unknown text => exact upkeep.refl t.store

theorem upholds_feed (line : String) (t : Step) : R t.store (feed encoding line t).2.store := by
  rw [feed]
  split
  · exact upholds_obey encoding upkeep _ { t with editor := { t.editor with mode := .command } }
  · exact upkeep.refl t.store

theorem upholds_typeLines (lines : List String) : ∀ t : Step,
    R t.store (typeLines encoding lines t).2.1.store := by
  induction lines with
  | nil => exact fun t => upkeep.refl t.store
  | cons line rest ih =>
      intro t
      have fed := upholds_feed encoding upkeep line (t.print [.prompt t.editor.prompt])
      rw [typeLines]
      split
      · next same =>
          rw [same] at fed
          exact fed
      · next same =>
          rw [same] at fed
          split
          · exact fed
          · exact upkeep.trans fed (ih _)

theorem upholds_edit (path : String) (input : List String) (t : Step) :
    R t.store (edit encoding path input t).2.1.store := by
  rw [edit]
  split
  · exact upkeep.refl t.store
  · next editor _ =>
      exact upholds_typeLines encoding upkeep input
        (Step.print { t with editor } [.line editor.greeting])

end

end Editor

namespace Action

variable {α β : Type}

/-- Upholds, whatever it gives, what holds between the store that it meets and the one it leaves. -/
def Upholds (R : Store → Store → Prop) (a : Action α) : Prop :=
  ∀ r : Run, R r.store (a.on r).2.store

/-! Rules. -/

section Rules
variable {a : Action α} {k : α → Action β} (upkeep : Store.Upkeep R)
include upkeep

theorem upholds_throw (f : Fault) : Upholds R (throw f : Action α) := fun r => upkeep.refl r.store

theorem upholds_emit (level : Level) (message : String) (item : Option String) :
    Upholds R (emit level message item) := fun r => upkeep.refl r.store

theorem Upholds.bind (first : Upholds R a) (rest : ∀ x, Upholds R (k x)) : Upholds R (a >>= k) := by
  intro r
  have before := first r
  rw [on_bind]
  rcases done : a.on r with ⟨f | x, r'⟩ <;> rw [done] at before
  · exact before
  · exact upkeep.trans before (rest x r')

theorem Upholds.tryCatch {handle : Fault → Action α} (body : Upholds R a)
    (handled : ∀ f, Upholds R (handle f)) : Upholds R (tryCatch a handle : Action α) := by
  intro r
  have before := body r
  rw [on_tryCatch]
  rcases done : a.on r with ⟨f | x, r'⟩ <;> rw [done] at before
  · exact upkeep.trans before (handled f r')
  · exact before

theorem upholds_editFile (name : String) (settings : Settings) :
    Upholds R (editFile name settings) := by
  intro r
  rw [editFile, on_bind, on_get]
  dsimp only
  cases r.editor with
  | none => exact upkeep.refl r.store
  | some editor =>
      have edited := Editor.upholds_edit settings.encoding upkeep (r.session.resolve [name]) r.input
        { editor, store := r.store }
      dsimp only
      rw [on_bind, on_resolve]
      dsimp only
      rcases edit : Editor.edit settings.encoding (r.session.resolve [name]) r.input
        { editor, store := r.store } with ⟨done, step, input⟩
      rw [edit] at edited
      dsimp only
      rw [on_bind, on_modify]
      refine upkeep.trans edited ?_
      cases done with
      | error f => exact upkeep.refl step.store
      | ok _ =>
          dsimp only
          split
          · exact upkeep.refl step.store
          · exact upkeep.refl step.store

end Rules

section
variable (custody : Store.Custody R)
include custody

theorem rules_uphold : Rules (Upholds R) where
  pure _ r := custody.refl r.store
  throw := upholds_throw custody.toUpkeep
  bind := Upholds.bind custody.toUpkeep
  tryCatch := Upholds.tryCatch custody.toUpkeep
  get _ rest r := rest r r
  emit := upholds_emit custody.toUpkeep
  note _ r := custody.refl r.store
  change safe r := by
    rw [on_change]
    exact safe R custody r.store
  records _ r := custody.refl r.store
  edit := upholds_editFile custody.toUpkeep

/-! Statements about the session, and scripts. -/

theorem upholds_use (folder : String) : Upholds R (use folder) := by
  intro r
  rw [use, on_bind, on_get]
  dsimp only
  cases r.session.use r.store folder with
  | error e => exact custody.refl r.store
  | ok session => exact custody.refl r.store

theorem upholds_drop : Upholds R drop := by
  intro r
  rw [drop, on_bind, on_get]
  dsimp only
  cases r.session.drop with
  | error e => exact custody.refl r.store
  | ok session => exact custody.refl r.store

omit custody in
theorem upholds_runLine {execute : String → World → Ran}
    (lines : ∀ line w, R w.store (execute line w).2.store) (line : String) :
    Upholds R (runLine execute line) := by
  intro r
  have ran := lines line (r.toWorld.announcing line)
  rw [on_runLine]
  rcases done : execute line (r.toWorld.announcing line) with ⟨f | o, w⟩ <;> rw [done] at ran
  · exact ran
  · exact ran

theorem upholds_load {settings : Settings} {execute? : Option (String → World → Ran)}
    (lines : ∀ execute, execute? = some execute → ∀ line w, R w.store (execute line w).2.store)
    (name : String) : Upholds R (load settings execute? name) := by
  have rules := rules_uphold custody
  refine rules.bind (rules.resolve _) fun path => rules.bind (rules.present _ _) fun held => ?_
  cases held with
  | false => exact rules.refuse _
  | true =>
      cases settings.loadLimit with
      | error cause => exact rules.throw _
      | ok limit =>
          cases execute? with
          | none => exact rules.refuse _
          | some execute =>
              exact rules.bind (rules.look _) fun text =>
                rules.forM (upholds_runLine (lines execute rfl)) _

end

end Action

namespace Statement

variable (custody : Store.Custody R)
include custody

theorem upholds_perform (settings : Settings) {execute? : Option (String → World → Ran)}
    (lines : ∀ execute, execute? = some execute → ∀ line w, R w.store (execute line w).2.store)
    (s : Statement) : (Action.perform settings execute? s).Upholds R := by
  cases s with
  | load name => exact Action.upholds_load custody lines name
  | use folder => exact Action.upholds_use custody folder
  | drop => exact Action.upholds_drop custody
  | _ => exact (Action.rules_uphold custody).perform trivial

theorem upholds_run {settings : Settings} {execute? : Option (String → World → Ran)}
    (lines : ∀ execute, execute? = some execute → ∀ line w, R w.store (execute line w).2.store)
    (s : Statement) (w : World) : R w.store (run settings execute? s w).2.store := by
  rw [store_run]
  exact upholds_perform custody settings lines s { toWorld := w }

/-- The lines of a script uphold what all changes do, as the scripts that they open do. -/
theorem upholds_executeBelow (settings : Settings) (n : Nat) : ∀ (line : String) (w : World),
    R w.store (executeBelow settings n line w).2.store := by
  induction n with
  | zero =>
      intro line w
      exact upholds_run custody (fun _ none => by cases none) (parse line) w
  | succ n ih =>
      intro line w
      refine upholds_run custody (fun execute same => ?_) (parse line) w
      rw [← Option.some.inj same]
      exact ih

end Statement

namespace World

/-- A world after some lines, one after the other. -/
def afterLines (settings : Settings) : List String → World → World
  | [], w => w
  | line :: rest, w => afterLines settings rest (execute settings line w).2

/-- Whatever lines are run, what all changes uphold holds between the stores before and after. -/
theorem upholds_afterLines (custody : Store.Custody R) (settings : Settings) (lines : List String) :
    ∀ w : World, R w.store (w.afterLines settings lines).store := by
  induction lines with
  | nil => exact fun w => custody.refl w.store
  | cons line rest ih =>
      intro w
      exact custody.trans (Statement.upholds_executeBelow custody settings settings.levels line w)
        (ih _)

theorem proper_start {store : Store} (sound : store.Sound) (folder : String) :
    Proper { store, session := .start folder } :=
  ⟨Session.normal_start folder, sound⟩

end World

end FileQuery
