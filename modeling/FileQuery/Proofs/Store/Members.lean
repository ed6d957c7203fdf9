import FileQuery.Proofs.Store.Change
import FileQuery.Proofs.Store.Entries

/-! What is done when a tree is copied without a failure. A report never comes up empty, so where
nothing is reported every member was copied, one after the other, in folders that were made first. -/
set_option autoImplicit false
namespace FileQuery.Store

variable {α β : Type} {s t : Store} {path source destination name : String}

/-! ## Faults that are reported -/

/-- Whether there is something to report if it fails. -/
def Tells (x : Except Fault α) : Prop := x ≠ .error (.os (.copyFailures []))

theorem tells_ok (a : α) : Tells (.ok a) := by simp [Tells]

theorem Tells.error {x : Except Fault α} {f : Fault} (tells : Tells x) (failed : x = .error f) :
    Tells (.error f : Except Fault β) := by
  subst failed
  exact fun silent => tells (by rw [← Except.error.inj silent])

theorem Tells.bind {x : Except Fault α} {g : α → Except Fault β} (first : Tells x)
    (rest : ∀ a, Tells (g a)) : Tells (x >>= g) := by
  cases x with
  | ok a => exact rest a
  | error f => exact first.error rfl

theorem tells_ofExcept {f : Store → Except Fault Store} (tells : Tells (f s)) :
    Tells (Change.ofExcept f s).1 := by
  rw [Change.ofExcept]
  cases done : f s with
  | ok t => exact tells_ok ()
  | error e => exact tells.error done

theorem tells_locate (s : Store) (follow : Bool) (path : String) : Tells (s.locate follow path) := by
  rw [locate]
  dsimp only
  split
  · simp [Tells]
  · split
    · simp [Tells, Except.mapError]
    · split
      · simp [Tells, Except.mapError]
      · cases walk s follow maxLinks _ _ <;> simp [Tells, Except.mapError]

theorem tells_stat (s : Store) (follow : Bool) (path : String) : Tells (s.stat follow path) := by
  rw [stat]
  split
  · exact tells_ok _
  · simp [Tells]
  · next f failed => exact (tells_locate s follow path).error failed

theorem tells_copyBytes (source destination : String) (s : Store) :
    Tells (copyBytes source destination s).1 := by
  refine tells_ofExcept (Tells.bind ?_ fun bytes => Tells.bind ?_ fun _ => tells_ok _)
  · refine (tells_stat s true source).bind fun found => ?_
    obtain ⟨place, e⟩ := found
    cases e <;> simp [Tells, pure, Except.pure, throw, throwThe, MonadExceptOf.throw]
  · refine (tells_locate s true destination).bind fun spot => ?_
    rcases spot with ⟨place, e⟩ | place
    · cases e <;> simp [Tells, pure, Except.pure, throw, throwThe, MonadExceptOf.throw]
    · exact tells_ok _

theorem tells_copyStatus (source destination : String) (s : Store) :
    Tells (copyStatus source destination s).1 := by
  refine tells_ofExcept ((tells_stat s true source).bind fun found => ?_)
  refine (tells_stat s true destination).bind fun found' => ?_
  obtain ⟨place, e⟩ := found
  obtain ⟨place', e'⟩ := found'
  cases e <;> cases e' <;> exact tells_ok _

theorem tells_copyMember (source name destination : String) (s : Store) :
    Tells (copyMember source name destination s).1 := by
  rw [copyMember]
  generalize (if s.isFolder destination then joinName destination name else destination) = path
  have bytes := tells_copyBytes source path s
  split
  · simp [Tells]
  · split
    · exact tells_copyStatus source path _
    · exact bytes

theorem tells_ensureFolder (path : String) (s : Store) : Tells (ensureFolder path s).1 := by
  have made : Tells (makeFolder path s).1 := by
    refine tells_ofExcept ((tells_locate s false path).bind fun spot => ?_)
    cases spot <;> simp [Tells, pure, Except.pure, throw, throwThe, MonadExceptOf.throw]
  rw [ensureFolder]
  split
  · next f t failed =>
      rw [failed] at made
      split
      · exact tells_ok ()
      · exact made
  · exact made

theorem tells_ensureFolders (room : Nat) (paths : List String) :
    ∀ s, Tells (ensureFolders room paths s).1 := by
  fun_induction ensureFolders room paths with
  | case1 => exact fun _ silent => by cases silent
  | case2 => exact fun _ => tells_ok ()
  | case3 n path => exact tells_ensureFolder path
  | case4 n path above rest ih =>
      intro s
      have before := ih s
      dsimp only
      split
      · exact tells_ensureFolder path s
      · split
        · exact tells_ensureFolder path _
        · next failed =>
            rw [failed] at before
            exact before
        · exact tells_ensureFolder path _

theorem tells_memberChange {copyTree : String → String → Change}
    (tree : ∀ a b s, Tells (copyTree a b s).1) (source name destination : String) (s : Store) :
    Tells (memberChange copyTree source name destination s).1 := by
  rw [memberChange]
  split
  · exact tree _ _ s
  · exact tells_copyMember _ _ _ s
  · split
    · exact tree _ _ s
    · exact tells_copyMember _ _ _ s
    · exact tells_copyMember _ _ _ s
    · next f _ failed => exact (tells_stat s true source).error failed
  · next f failed => exact (tells_stat s false source).error failed

theorem tells_copyLevels (n : Nat) (source destination : String) (s : Store) :
    Tells (copyLevels n source destination s).1 := by
  cases n with
  | zero => exact fun silent => by cases silent
  | succ n =>
      have listed : Tells (s.namesAt source) := by
        refine (tells_stat s true source).bind fun found => ?_
        obtain ⟨place, e⟩ := found
        cases e <;> simp [Tells, pure, Except.pure, throw, throwThe, MonadExceptOf.throw]
      have made := tells_ensureFolders s.nesting (pathsAbove destination) s
      unfold copyLevels
      split
      · next f failed => exact listed.error failed
      · split
        · next f t failed =>
            rw [failed] at made
            exact made
        · split
          · next stopped =>
              rw [eq_nested_of_copyMembers (congrArg Prod.fst stopped)]
              simp [Tells]
          · dsimp only
            split
            all_goals
              split
              · exact tells_ok ()
              · next some =>
                  intro silent
                  simp only [Except.error.injEq, Fault.os.injEq, StoreError.copyFailures.injEq] at silent
                  rw [silent] at some
                  exact some rfl

/-- What a fault is reported as is empty only if the fault is an empty report. -/
theorem failuresOf_ne_nil {f : Fault} (tells : Tells (.error f : Except Fault α)) :
    failuresOf source destination f ≠ [] := by
  unfold failuresOf
  split
  · simp [StoreError.message]
  · rintro rfl
    exact tells rfl
  · simp

/-! ## Copies without failures -/

variable {copyTree : String → String → Change}

theorem of_namesAt {names : List String} (listed : s.namesAt source = .ok names) :
    ∃ place mode, s.stat true source = .ok (place, .folder mode) ∧ names = s.names place := by
  obtain ⟨⟨place, e⟩, ends, listed⟩ := of_bind_eq_ok listed
  cases e with
  | folder mode =>
      cases listed
      exact ⟨place, mode, ends, rfl⟩
  | file bytes mode modified => cases listed
  | link target => cases listed

theorem of_copyMember (copied : copyMember source name destination s = (.ok (), t)) :
    ∃ path u, path = (if s.isFolder destination then joinName destination name else destination) ∧
      copyBytes source path s = (.ok (), u) ∧ copyStatus source path u = (.ok (), t) := by
  rw [copyMember] at copied
  generalize (if s.isFolder destination then joinName destination name else destination) = path
    at copied
  split at copied
  · cases copied
  · rcases bytes : copyBytes source path s with ⟨f | _, u⟩ <;> rw [bytes] at copied
    · cases copied
    · exact ⟨path, u, rfl, bytes, copied⟩

theorem of_memberChange
    (copied : memberChange copyTree source name destination s = (.ok (), t)) :
    copyTree source destination s = (.ok (), t) ∨ copyMember source name destination s = (.ok (), t) := by
  rw [memberChange] at copied
  split at copied
  · exact .inl copied
  · exact .inr copied
  · split at copied
    · exact .inl copied
    · exact .inr copied
    · exact .inr copied
    · cases copied
  · cases copied

/-- A member is copied as a tree if its path leads to a folder, even through a link. -/
theorem memberChange_of_folder {p q : Place} {own : Entry} {mode : Nat}
    (leads : s.stat false source = .ok (q, own)) (ends : s.stat true source = .ok (p, .folder mode)) :
    memberChange copyTree source name destination s = copyTree source destination s := by
  rw [memberChange, leads]
  cases own with
  | folder mode' => rfl
  | file bytes mode' modified =>
      rw [stat_follow (by simp) leads] at ends
      cases ends
  | link target =>
      dsimp only
      rw [ends]

theorem memberChange_of_other {p q : Place} {own e : Entry} (leads : s.stat false source = .ok (q, own))
    (ends : s.stat true source = .ok (p, e)) (other : ∀ mode, e ≠ .folder mode) :
    memberChange copyTree source name destination s = copyMember source name destination s := by
  rw [memberChange, leads]
  cases own with
  | folder mode =>
      rw [stat_follow (by simp) leads] at ends
      cases ends
      exact absurd rfl (other mode)
  | file bytes mode modified => rfl
  | link target =>
      dsimp only
      rw [ends]
      cases e with
      | folder mode => exact absurd rfl (other mode)
      | file bytes mode modified => rfl
      | link target' => rfl

theorem of_copyMembers (tree : ∀ a b s, Tells (copyTree a b s).1) {names : List String}
    (copied : copyMembers copyTree source destination (name :: names) s = (.ok [], t)) :
    ∃ u, memberChange copyTree (joinName source name) name (joinName destination name) s = (.ok (), u) ∧
      copyMembers copyTree source destination names u = (.ok [], t) := by
  have tells := tells_memberChange tree (joinName source name) name (joinName destination name) s
  rw [copyMembers] at copied
  rcases changed : memberChange copyTree (joinName source name) name (joinName destination name) s with
    ⟨r, u⟩
  rw [changed] at copied tells
  dsimp only at copied
  rcases others : copyMembers copyTree source destination names u with ⟨g | later, v⟩
  · split at copied
    · cases copied
    · next same =>
        cases same
        rw [others] at copied
        cases copied
  · split at copied
    · cases copied
    · next same =>
        cases same
        rw [others] at copied
        simp only [Except.map, Prod.mk.injEq, Except.ok.injEq, List.append_eq_nil_iff] at copied
        obtain ⟨⟨told, rfl⟩, rfl⟩ := copied
        cases r with
        | error f => exact absurd told (failuresOf_ne_nil tells)
        | ok _ => exact ⟨u, rfl, others⟩

theorem of_copyLevels {n : Nat} (copied : copyLevels n source destination s = (.ok (), t)) :
    ∃ k names u v, n = k + 1 ∧ s.namesAt source = .ok names ∧
      ensureFolders s.nesting (pathsAbove destination) s = (.ok (), u) ∧
      copyMembers (copyLevels k) source destination names u = (.ok [], v) ∧
      copyStatus source destination v = (.ok (), t) := by
  cases n with
  | zero => cases copied
  | succ k =>
      unfold copyLevels at copied
      cases listed : s.namesAt source with
      | error f =>
          rw [listed] at copied
          cases copied
      | ok names =>
          rw [listed] at copied
          rcases made : ensureFolders s.nesting (pathsAbove destination) s with ⟨f | _, u⟩ <;>
            rw [made] at copied
          · cases copied
          · dsimp only at copied
            rcases members : copyMembers (copyLevels k) source destination names u with ⟨f | failures, v⟩ <;>
              rw [members] at copied <;> dsimp only at copied
            · cases copied
            rcases status : copyStatus source destination v with ⟨f | _, w⟩ <;>
              rw [status] at copied <;> dsimp only at copied
            · rw [if_neg (by simp)] at copied
              cases copied
            · split at copied
              · next none =>
                  cases copied
                  obtain rfl := List.isEmpty_iff.mp none
                  exact ⟨k, names, u, v, rfl, rfl, rfl, members, status⟩
              · cases copied

end FileQuery.Store
