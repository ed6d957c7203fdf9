import FileQuery.Execution.Folder
import FileQuery.Proofs.Execution.Action

/-! What work leaves as it was, and when it is refused. A part of a run that statements about entries
do not touch, such as the outcomes of lines run before, is a view that is blind to what they do.
Refusals come first: a statement that is refused has left nothing but notes in the log. What would be
refused may stray before that. -/
set_option autoImplicit false
namespace FileQuery

/-- A view of a run that shows nothing of what is reported, of the store, of the editor and of the
records. -/
structure Run.Blind {σ : Type} (see : Run → σ) : Prop where
  log : ∀ (r : Run) (log : List LogEntry), see { r with log } = see r
  reported : ∀ (r : Run) (level : Level) (message : String) (item : Option String),
    see (r.reported level message item) = see r
  store : ∀ (r : Run) (store : Store), see { r with store } = see r
  records : ∀ (r : Run) (records : Option (List Record)), see { r with records } = see r
  edited : ∀ (r : Run) (store : Store) (editor : Option Editor) (input : List String)
    (log : List LogEntry) (shown : List Shown), see { r with store, editor, input, log, shown } = see r

theorem Run.blind_children : Run.Blind Run.children where
  log _ _ := rfl
  reported _ _ _ _ := rfl
  store _ _ := rfl
  records _ _ := rfl
  edited _ _ _ _ _ _ := rfl

namespace Action

variable {α β σ : Type} {see : Run → σ}

/-- Keeps what a view shows and is never refused, whatever it meets. -/
def Plain (see : Run → σ) (a : Action α) : Prop :=
  ∀ r, see (a.on r).2 = see r ∧ ∀ e, (a.on r).1 ≠ .error (.command e)

/-- Keeps what a view shows, and is refused just under a condition unless it strays, having left
nothing but notes in the log. -/
structure Guarded (see : Run → σ) (P : Prop) (a : Action α) (r : Run) : Prop where
  kept : see (a.on r).2 = see r
  refused : P → ¬ a.Strays r → ∃ e log, a.on r = (.error (.command e), { r with log })
  goes : ¬ P → ∀ e, (a.on r).1 ≠ .error (.command e)

/-! Rules for plain work. -/

section Rules
variable {a : Action α} {k : α → Action β} {r : Run}

theorem Plain.of_ok {g : Run → Run} {x : Run → α} (done : ∀ r, a.on r = (.ok (x r), g r))
    (kept : ∀ r, see (g r) = see r) : Plain see a := by
  intro r
  rw [done]
  exact ⟨kept r, by simp⟩

theorem plain_pure (x : α) : Plain see (pure x : Action α) := .of_ok (fun _ => on_pure x) fun _ => rfl

theorem plain_throw {f : Fault} (other : ∀ e, f ≠ .command e) : Plain see (throw f : Action α) := by
  intro r
  refine ⟨rfl, fun e same => other e ?_⟩
  simpa using same

theorem plain_get : Plain see (get : Action Run) := .of_ok (fun _ => on_get) fun _ => rfl

theorem plain_resolve (parts : List String) : Plain see (resolve parts) :=
  .of_ok (fun _ => on_resolve parts) fun _ => rfl

theorem plain_present (path : String) (kind : Option Kind) : Plain see (present path kind) :=
  .of_ok (fun _ => on_present path kind) fun _ => rfl

theorem plain_modify {g : Run → Run} (kept : ∀ r, see (g r) = see r) :
    Plain see (modify g : Action Unit) := .of_ok (fun _ => on_modify g) kept

theorem plain_look (f : Store → Except Store.Fault α) : Plain see (look f) := by
  intro r
  rw [on_look]
  refine ⟨rfl, fun e same => ?_⟩
  cases done : f r.store with
  | ok x => simp [done] at same
  | error e => simp [done] at same

theorem Plain.bind (first : Plain see a) (rest : ∀ x, Plain see (k x)) : Plain see (a >>= k) := by
  intro r
  have before := first r
  rw [on_bind]
  rcases done : a.on r with ⟨f | x, r'⟩ <;> rw [done] at before
  · refine ⟨before.1, fun e same => before.2 e ?_⟩
    cases same
    rfl
  · have after := rest x r'
    exact ⟨after.1.trans before.1, after.2⟩

theorem Plain.tryCatch {handle : Fault → Action α} (body : Plain see a)
    (handled : ∀ f, (∀ e, f ≠ .command e) → Plain see (handle f)) :
    Plain see (tryCatch a handle : Action α) := by
  intro r
  have before := body r
  rw [on_tryCatch]
  rcases done : a.on r with ⟨f | x, r'⟩ <;> rw [done] at before
  · have other : ∀ e, f ≠ .command e := fun e same => before.2 e (by rw [same])
    have after := handled f other r'
    exact ⟨after.1.trans before.1, after.2⟩
  · exact before

theorem Plain.forM {work : α → Action Unit} (each : ∀ x, Plain see (work x)) (items : List α) :
    Plain see (items.forM work) := by
  induction items with
  | nil => exact plain_pure ()
  | cons x rest ih => exact (each x).bind fun _ => ih

theorem Plain.mapM {work : α → Action β} (each : ∀ x, Plain see (work x)) (items : List α) :
    Plain see (items.mapM work) := by
  induction items with
  | nil => exact plain_pure []
  | cons x rest ih =>
      rw [List.mapM_cons]
      exact (each x).bind fun _ => ih.bind fun _ => plain_pure _

theorem Plain.guarded (plain : Plain see a) (r : Run) : Guarded see False a r where
  kept := (plain r).1
  refused := False.elim
  goes _ := (plain r).2

theorem Guarded.of_refused {P : Prop} {e : CommandError} (holds : P)
    (refused : a.on r = (.error (.command e), r)) : Guarded see P a r where
  kept := by rw [refused]
  refused _ _ := ⟨e, r.log, refused⟩
  goes fails := (fails holds).elim

theorem guarded_refuse (e : CommandError) : Guarded see True (refuse e : Action α) r :=
  .of_refused trivial rfl

theorem Guarded.of_on_eq {P : Prop} {b : Action α} (guarded : Guarded see P b r)
    (same : a.on r = b.on r) : Guarded see P a r where
  kept := by rw [same]; exact guarded.kept
  refused holds calm := by
    rw [same]
    exact guarded.refused holds (by rwa [Strays, ← same])
  goes := by rw [same]; exact guarded.goes

theorem Guarded.after {P : Prop} {x : α} {log : List LogEntry}
    (blind : Run.Blind see) (done : a.on r = (.ok x, { r with log }))
    (rest : Guarded see P (k x) { r with log }) : Guarded see P (a >>= k) r where
  kept := by
    rw [on_bind, done]
    exact rest.kept.trans (blind.log r log)
  refused holds calm := by
    rw [strays_next done] at calm
    obtain ⟨e, log', refused⟩ := rest.refused holds calm
    exact ⟨e, log', by rw [on_bind, done]; exact refused⟩
  goes fails := by
    rw [on_bind, done]
    exact rest.goes fails

theorem Guarded.next {P : Prop} {x : α} (done : a.on r = (.ok x, r))
    (rest : Guarded see P (k x) r) : Guarded see P (a >>= k) r := by
  have same : (a >>= k).on r = (k x).on r := by rw [on_bind, done]
  exact rest.of_on_eq same

theorem Guarded.of_stray {P : Prop} {f : Fault} {r' : Run} (done : a.on r = (.error f, r'))
    (stray : f.Stray) (kept : see r' = see r) : Guarded see P a r where
  kept := by rw [done]; exact kept
  refused _ calm := (calm ⟨f, by rw [done], stray⟩).elim
  goes _ e refused := by
    rw [done] at refused
    cases refused
    exact stray

theorem Guarded.congr {P Q : Prop} (guarded : Guarded see P a r) (same : Q ↔ P) :
    Guarded see Q a r := by
  rwa [propext same]

theorem Guarded.bind {P : Prop} (first : Guarded see P a r) (rest : ∀ x, Plain see (k x)) :
    Guarded see P (a >>= k) r where
  kept := by
    have before := first.kept
    rw [on_bind]
    rcases done : a.on r with ⟨f | x, r'⟩ <;> rw [done] at before
    · exact before
    · exact (rest x r').1.trans before
  refused holds calm := by
    obtain ⟨e, log, refused⟩ := first.refused holds fun strays => calm (strays_bind.mpr (.inl strays))
    exact ⟨e, log, by rw [on_bind, refused]⟩
  goes fails := by
    have before := first.goes fails
    rw [on_bind]
    rcases done : a.on r with ⟨f | x, r'⟩ <;> rw [done] at before
    · intro e same
      refine before e ?_
      cases same
      rfl
    · exact (rest x r').2

end Rules

end Action

end FileQuery
