import FileQuery.Execution.Basic
import FileQuery.Proofs.Selection

/-! How the parts of a statement's work run one after the other, and when they stop at a fault that
no statement turns into an event. -/
set_option autoImplicit false
namespace FileQuery

/-- A fault that a statement does not end in an event with. -/
def Fault.Stray : Fault → Prop
  | .command _ => False
  | .store f => f.isReadable = false
  | _ => True

/-- Whether something holds of an item in the state that those before it leave. -/
def MetInTurn {α σ : Type} (P : α → σ → Prop) (next : α → σ → σ) : List α → σ → Prop
  | [], _ => False
  | x :: xs, s => P x s ∨ MetInTurn P next xs (next x s)

theorem metInTurn_map {α β σ : Type} {P : β → σ → Prop} {next : β → σ → σ} (f : α → β)
    (xs : List α) : ∀ s : σ, MetInTurn P next (xs.map f) s ↔
      MetInTurn (fun x => P (f x)) (fun x => next (f x)) xs s := by
  induction xs with
  | nil => exact fun s => Iff.rfl
  | cons x xs ih => exact fun s => or_congr Iff.rfl (ih (next (f x) s))

theorem not_metInTurn {α σ : Type} {P : α → σ → Prop} {next : α → σ → σ} {xs : List α}
    (never : ∀ x ∈ xs, ∀ s, ¬ P x s) : ∀ s, ¬ MetInTurn P next xs s := by
  induction xs with
  | nil => exact fun _ met => met
  | cons x xs ih =>
      rintro s (met | met)
      · exact never x (by simp) s met
      · exact ih (fun y member => never y (by simp [member])) _ met

theorem metInTurn_congr {α σ : Type} {P Q : α → σ → Prop} {next : α → σ → σ} {xs : List α}
    (same : ∀ x ∈ xs, ∀ s, P x s ↔ Q x s) :
    ∀ {s : σ}, MetInTurn P next xs s ↔ MetInTurn Q next xs s := by
  induction xs with
  | nil => exact Iff.rfl
  | cons x xs ih =>
      intro s
      exact or_congr (same x (by simp) s) (ih fun y member => same y (List.mem_cons_of_mem _ member))

/-- Whether there is an entry of a kind at a path, or any entry. -/
def Store.holds (s : Store) (path : String) : Option Kind → Bool
  | some .file => s.isFile path
  | some .folder => s.isFolder path
  | none => s.isPresent path

theorem Store.plain_of_holds {s : Store} {path : String} {kind : Option Kind}
    (held : s.holds path kind = true) : hasNul path = false := by
  rcases kind with _ | ⟨_ | _⟩
  · exact plain_of_isPresent held
  · exact plain_of_isFile held
  · exact plain_of_isFolder held

def Run.reported (r : Run) (level : Level) (message : String) (item : Option String) : Run :=
  { r with
    events := r.events ++ [{ level, message, item }]
    log := r.log ++ [{ level := .ofEvent level, message }] }

@[simp] theorem Run.reported_session (r : Run) (level : Level) (message : String)
    (item : Option String) : (r.reported level message item).session = r.session := rfl

def Run.reportedAll (r : Run) (es : List Event) : Run :=
  { r with
    events := r.events ++ es
    log := r.log ++ es.map fun e => { level := .ofEvent e.level, message := e.message } }

@[simp] theorem Run.reportedAll_store (r : Run) (es : List Event) :
    (r.reportedAll es).store = r.store := rfl

@[simp] theorem Run.reportedAll_session (r : Run) (es : List Event) :
    (r.reportedAll es).session = r.session := rfl

@[simp] theorem Run.reportedAll_nil (r : Run) : r.reportedAll [] = r := by
  simp [reportedAll]

theorem Run.reportedAll_append (r : Run) (es es' : List Event) :
    (r.reportedAll es).reportedAll es' = r.reportedAll (es ++ es') := by
  simp [reportedAll]

namespace Action

variable {α β : Type}

def on (a : Action α) (r : Run) : Except Fault α × Run := a.run.run r

def Strays (a : Action α) (r : Run) : Prop := ∃ f, (a.on r).1 = .error f ∧ f.Stray

theorem on_bind (a : Action α) (k : α → Action β) (r : Run) :
    (a >>= k).on r =
      match a.on r with
      | (.ok x, r') => (k x).on r'
      | (.error f, r') => (.error f, r') := by
  rcases done : a.on r with ⟨x | x, r'⟩
  all_goals
    have ran : a r = _ := done
    simp only [on, ExceptT.run, bind, ExceptT.bind, ExceptT.mk, StateT.bind, StateT.run, ran]
    rfl

theorem on_tryCatch (a : Action α) (handle : Fault → Action α) (r : Run) :
    (tryCatch a handle : Action α).on r =
      match a.on r with
      | (.ok x, r') => (.ok x, r')
      | (.error f, r') => (handle f).on r' := by
  rcases done : a.on r with ⟨x | x, r'⟩
  all_goals
    have ran : a r = _ := done
    simp only [on, ExceptT.run, tryCatch, tryCatchThe, MonadExceptOf.tryCatch, ExceptT.tryCatch,
      ExceptT.mk, bind, StateT.bind, StateT.run, ran]
  rfl

theorem on_forM_cons (work : α → Action Unit) (x : α) (xs : List α) (r : Run) :
    ((x :: xs).forM work).on r =
      match (work x).on r with
      | (.ok _, r') => (xs.forM work).on r'
      | (.error f, r') => (.error f, r') := by
  have parts : ((x :: xs).forM work).on r = (work x >>= fun _ => xs.forM work).on r := rfl
  rw [parts, on_bind]
  rcases (work x).on r with ⟨_ | _, r'⟩ <;> rfl

/-! What single steps give and leave. -/

section Steps
variable {r : Run}

@[simp] theorem on_pure (x : α) : (pure x : Action α).on r = (.ok x, r) := rfl

@[simp] theorem on_throw (f : Fault) : (throw f : Action α).on r = (.error f, r) := rfl

@[simp] theorem on_refuse (e : CommandError) :
    (refuse e : Action α).on r = (.error (.command e), r) := rfl

@[simp] theorem on_get : (get : Action Run).on r = (.ok r, r) := rfl

@[simp] theorem on_modify (g : Run → Run) : (modify g : Action Unit).on r = (.ok (), g r) := rfl

@[simp] theorem on_resolve (parts : List String) :
    (resolve parts).on r = (.ok (r.session.resolve parts), r) := rfl

@[simp] theorem on_present (path : String) (kind : Option Kind) :
    (present path kind).on r = (.ok (r.store.holds path kind), r) := by
  rcases kind with _ | ⟨_ | _⟩ <;> rfl

@[simp] theorem on_emit (level : Level) (message : String) (item : Option String) :
    (emit level message item).on r = (.ok (), r.reported level message item) := rfl

theorem on_look (f : Store → Except Store.Fault α) :
    (look f).on r = ((f r.store).mapError .store, r) := by
  rw [look, on_bind]
  simp only [on_get]
  cases f r.store <;> rfl

theorem on_change (c : Store.Change) :
    (change c).on r = ((c r.store).1.mapError .store, { r with store := (c r.store).2 }) := by
  rw [change, on_bind]
  simp only [on_get]
  rcases c r.store with ⟨_ | _, s⟩ <;> rfl

theorem on_change_ok {c : Store.Change} {s : Store} (done : c r.store = (.ok (), s)) :
    (change c).on r = (.ok (), { r with store := s }) := by
  rw [on_change, done]
  rfl

theorem on_change_error {c : Store.Change} {e : Store.Fault} {s : Store}
    (stopped : c r.store = (.error e, s)) :
    (change c).on r = (.error (.store e), { r with store := s }) := by
  rw [on_change, stopped]
  rfl

theorem on_listing (folder : String) (kind : Option Kind) :
    (listing folder kind).on r =
      match listFolder r.store folder kind with
      | .ok (records, notes) => (.ok records, { r with log := r.log ++ notes })
      | .error u => (.error u.fault, { r with log := r.log ++ u.notes }) := by
  rw [listing, on_bind]
  simp only [on_get]
  rcases listFolder r.store folder kind with u | ⟨records, notes⟩ <;> rfl

theorem on_listingHere (kind : Option Kind) (k : List Record → Action β) :
    (get >>= fun r : Run => listing r.session.folder kind >>= k).on r =
      match listFolder r.store r.session.folder kind with
      | .ok (records, notes) => (k records).on { r with log := r.log ++ notes }
      | .error u => (.error u.fault, { r with log := r.log ++ u.notes }) := by
  rw [on_bind, on_get]
  dsimp only
  rw [on_bind, on_listing]
  rcases listFolder r.store r.session.folder kind with u | ⟨records, notes⟩ <;> rfl

theorem on_guardItem (concerns : Store.Fault → Bool) (report : String → Action Unit)
    (work : Action Unit) :
    (guardItem concerns report work).on r =
      match work.on r with
      | (.error (.store e), r') =>
        if concerns e then (report e.message).on r' else (.error (.store e), r')
      | done => done := by
  rw [guardItem, on_tryCatch]
  rcases work.on r with ⟨f | _, r'⟩
  · cases f with
    | store e =>
        dsimp only
        split <;> rfl
    | _ => rfl
  · rfl

end Steps

/-! When they stray. -/

section Straying
variable {r : Run} {a : Action α} {k : α → Action β}

theorem strays_bind :
    (a >>= k).Strays r ↔ a.Strays r ∨ ∃ x r', a.on r = (.ok x, r') ∧ (k x).Strays r' := by
  rcases done : a.on r with ⟨f | x, r'⟩
  · simp [Strays, on_bind, done]
  · simp only [Strays, on_bind, done]
    constructor
    · exact fun strays => .inr ⟨x, r', rfl, strays⟩
    · rintro (⟨f, stopped, _⟩ | ⟨y, r'', same, strays⟩)
      · cases stopped
      · cases same
        exact strays

theorem strays_next {x : α} {r' : Run} (done : a.on r = (.ok x, r')) :
    (a >>= k).Strays r ↔ (k x).Strays r' := by
  simp only [Strays, on_bind, done]

theorem not_strays_of_refused {e : CommandError} {r' : Run}
    (refused : a.on r = (.error (.command e), r')) : ¬ (a >>= k).Strays r := by
  rintro ⟨f, stopped, stray⟩
  rw [on_bind, refused] at stopped
  cases stopped
  exact stray

theorem strays_bind_of_calm (calm : ∀ x r', ¬ (k x).Strays r') :
    (a >>= k).Strays r ↔ a.Strays r := by
  rw [strays_bind]
  constructor
  · rintro (strays | ⟨x, r', _, strays⟩)
    · exact strays
    · exact absurd strays (calm x r')
  · exact .inl

theorem not_strays_of_ok {x : α} {r' : Run} (done : a.on r = (.ok x, r')) : ¬ a.Strays r := by
  rintro ⟨f, stopped, _⟩
  rw [done] at stopped
  cases stopped

theorem strays_throw {f : Fault} : (throw f : Action α).Strays r ↔ f.Stray := by
  simp [Strays]

@[simp] theorem not_strays_refuse (e : CommandError) : ¬ (refuse e : Action α).Strays r := by
  simp [Strays, Fault.Stray]

@[simp] theorem not_strays_pure (x : α) : ¬ (pure x : Action α).Strays r :=
  not_strays_of_ok (on_pure x)

@[simp] theorem not_strays_emit (level : Level) (message : String) (item : Option String) :
    ¬ (emit level message item).Strays r :=
  not_strays_of_ok (on_emit level message item)

@[simp] theorem not_strays_modify (g : Run → Run) : ¬ (modify g : Action Unit).Strays r :=
  not_strays_of_ok (on_modify g)

theorem stray_mapError {x : Except Store.Fault α} :
    (∃ f, x.mapError Fault.store = .error f ∧ f.Stray) ↔ Store.Stray x := by
  cases x with
  | ok x =>
      refine iff_of_false ?_ (Store.not_stray_ok x)
      rintro ⟨f, stopped, _⟩
      cases stopped
  | error e =>
      rw [Store.stray_error]
      constructor
      · rintro ⟨f, stopped, stray⟩
        cases stopped
        exact stray
      · exact fun stray => ⟨.store e, rfl, stray⟩

theorem strays_look {f : Store → Except Store.Fault α} :
    (look f).Strays r ↔ Store.Stray (f r.store) := by
  rw [Strays, on_look]
  exact stray_mapError

theorem strays_change {c : Store.Change} : (change c).Strays r ↔ Store.Stray (c r.store).1 := by
  rw [Strays, on_change]
  exact stray_mapError

theorem strays_change_bind {c : Store.Change} {k : Unit → Action β}
    (calm : ∀ x r', ¬ (k x).Strays r') :
    (change c >>= k).Strays r ↔ Store.Stray (c r.store).1 := by
  rw [strays_bind_of_calm calm]
  exact strays_change

/-- What begins with a listing strays where the folder cannot be listed, or with its records. -/
theorem strays_listing {folder : String} {kind : Option Kind} {k : List Record → Action β} :
    (listing folder kind >>= k).Strays r ↔
      r.store.Unlistable folder ∨
        ∃ records notes, listFolder r.store folder kind = .ok (records, notes) ∧
          (k records).Strays { r with log := r.log ++ notes } := by
  have ran := on_listing (r := r) folder kind
  have whole := listed r.store folder kind
  generalize found : listFolder r.store folder kind = outcome at ran whole
  cases whole with
  | missing refused =>
      refine iff_of_false (not_strays_of_refused ran) ?_
      rintro (⟨names, named, -⟩ | ⟨records, notes, done, -⟩)
      · rw [refused] at named
        cases named
      · cases done
  | halted unlistable stray =>
      refine iff_of_true ?_ (.inl unlistable)
      exact strays_bind.mpr (.inl ⟨_, congrArg Prod.fst ran, stray⟩)
  | done named dated =>
      rw [strays_next ran]
      constructor
      · exact fun strays => .inr ⟨_, _, rfl, strays⟩
      · rintro (⟨names, named', name, member, dateless⟩ | ⟨records, notes, same, strays⟩)
        · rw [named] at named'
          cases named'
          exact absurd dateless (dated name member)
        · cases same
          exact strays

theorem strays_guardItem {report : String → Action Unit} {work : Action Unit}
    (calm : ∀ message r', ¬ (report message).Strays r') :
    (guardItem Store.Fault.isReadable report work).Strays r ↔ work.Strays r := by
  simp only [Strays, on_guardItem]
  rcases work.on r with ⟨f | x, r'⟩
  · cases f with
    | store e =>
        cases readable : e.isReadable with
        | true =>
            refine iff_of_false ?_ (by simp [Fault.Stray, readable])
            simpa [readable, Strays] using calm e.message r'
        | false => simp [readable]
    | _ => simp
  · simp

theorem not_strays_forM {work : α → Action Unit} {items : List α}
    (calm : ∀ x ∈ items, ∀ r, ¬ (work x).Strays r) : ∀ r, ¬ (items.forM work).Strays r := by
  induction items with
  | nil => exact fun r => not_strays_pure ()
  | cons x xs ih =>
      intro r strays
      have parts : (work x >>= fun _ => xs.forM work).Strays r := strays
      rcases strays_bind.mp parts with strays | ⟨_, r', _, strays⟩
      · exact calm x (by simp) r strays
      · exact ih (fun y member => calm y (List.mem_cons_of_mem _ member)) r' strays

/-- Items one after the other stray where one does in its turn. Each is to stray by a property of
what is seen of the run, and else to leave the run in a known state for the next. -/
theorem strays_forM {σ : Type} {work : α → Action Unit} {P : α → σ → Prop} {next : α → σ → σ}
    (seen : Run → σ) (known : Run → Prop) {items : List α}
    (turn : ∀ x ∈ items, ∀ r, known r → ((work x).Strays r ↔ P x (seen r)))
    (calm : ∀ x ∈ items, ∀ r, known r → ¬ P x (seen r) →
      ∃ r', (work x).on r = (.ok (), r') ∧ known r' ∧ seen r' = next x (seen r)) :
    ∀ r, known r → ((items.forM work).Strays r ↔ MetInTurn P next items (seen r)) := by
  -- over the items, for every run that is known: `seen` of it is the state of the rest
  induction items with
  | nil => exact fun r _ => iff_of_false (not_strays_pure ()) (by simp [MetInTurn])
  | cons x xs ih =>
      intro r ready
      have first := turn x (by simp) r ready
      have rest := ih (fun y member => turn y (List.mem_cons_of_mem _ member))
        (fun y member => calm y (List.mem_cons_of_mem _ member))
      have parts : ((x :: xs).forM work).Strays r ↔
          (work x >>= fun _ => xs.forM work).Strays r := Iff.rfl
      rw [parts, MetInTurn]
      by_cases met : P x (seen r)
      · exact iff_of_true (strays_bind.mpr (.inl (first.mpr met))) (.inl met)
      · obtain ⟨r', done, ready', same⟩ := calm x (by simp) r ready met
        rw [strays_next done, rest r' ready', same]
        simp [met]

end Straying

end Action

end FileQuery
