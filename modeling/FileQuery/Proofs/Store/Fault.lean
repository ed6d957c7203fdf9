import FileQuery.Proofs.Except
import FileQuery.Store.Transfer

/-! Which faults operations on the store stop at. A path with a NUL is refused before the store is
looked at; every other fault of an operation that reads no text and writes none is a refusal of the
store itself. -/
set_option autoImplicit false
namespace FileQuery.Store

/-- Stops, if at all, where the store refuses the operation. -/
def Refusable {α : Type} (x : Except Fault α) : Prop := ∀ f, x = .error f → f.isRefusal = true

/-- Stops at a fault that is neither a refusal of the store nor bytes that are no text. -/
def Stray {α : Type} (x : Except Fault α) : Prop := ∃ f, x = .error f ∧ f.isReadable = false

/-- Stops, if at all, where the store refuses the operation or a tree is too high. -/
def Limited {α : Type} (x : Except Fault α) : Prop :=
  ∀ f, x = .error f → f.isRefusal = true ∨ f = .nested

theorem isReadable_of_isRefusal {f : Fault} (refusal : f.isRefusal = true) :
    f.isReadable = true := by
  cases f with
  | os _ => rfl
  | _ => cases refusal

section Outcomes
variable {α β ε ε' : Type} {x : Except Fault α}

theorem Refusable.not_stray (refusable : Refusable x) : ¬ Stray x := by
  rintro ⟨f, stopped, stray⟩
  rw [isReadable_of_isRefusal (refusable f stopped)] at stray
  cases stray

theorem Refusable.limited (refusable : Refusable x) : Limited x :=
  fun f stopped => .inl (refusable f stopped)

theorem limited_nested : Limited (.error .nested : Except Fault α) := by
  rintro f ⟨⟩
  exact .inr rfl

theorem refusable_ok (a : α) : Refusable (.ok a) := by
  intro f stopped
  cases stopped

theorem refusable_error {f : Fault} (refusal : f.isRefusal = true) :
    Refusable (.error f : Except Fault α) := by
  intro g stopped
  cases stopped
  exact refusal

theorem refusable_os (e : StoreError) : Refusable (.error (.os e) : Except Fault α) :=
  refusable_error rfl

theorem not_stray_ok (a : α) : ¬ Stray (.ok a) := (refusable_ok a).not_stray

theorem stray_error {f : Fault} : Stray (.error f : Except Fault α) ↔ f.isReadable = false := by
  constructor
  · rintro ⟨g, stopped, stray⟩
    cases stopped
    exact stray
  · exact fun stray => ⟨f, rfl, stray⟩

theorem Refusable.bind {g : α → Except Fault β} (first : Refusable x)
    (second : ∀ a, Refusable (g a)) : Refusable (x >>= g) := by
  cases x with
  | ok a => exact second a
  | error f => exact refusable_error (first f rfl)

theorem refusable_mapError (y : Except ε α) (cause : ε → StoreError) :
    Refusable (y.mapError fun e => .os (cause e)) := by
  cases y with
  | ok a => exact refusable_ok a
  | error e => exact refusable_os (cause e)

theorem refusable_ofExcept {f : Store → Except Fault Store} {s : Store}
    (attempt : Refusable (f s)) : Refusable (Change.ofExcept f s).1 := by
  unfold Change.ofExcept
  cases done : f s with
  | ok _ => exact refusable_ok ()
  | error e => exact refusable_error (attempt e done)

theorem of_ofExcept {f : Store → Except Fault Store} {s t : Store}
    (done : Change.ofExcept f s = (.ok (), t)) : f s = .ok t := by
  rw [Change.ofExcept] at done
  split at done
  · next changed =>
      cases done
      exact changed
  · cases done

theorem ofExcept_error {f : Store → Except Fault Store} {s : Store} {e : Fault}
    (attempt : f s = .error e) : Change.ofExcept f s = (.error e, s) := by
  simp only [Change.ofExcept, attempt]

end Outcomes

/-! Paths. -/

section Paths
variable {s : Store} {path : String}

theorem locate_of_hasNul (nul : hasNul path = true) (s : Store) (follow : Bool) :
    s.locate follow path = .error .nulInPath := by
  rw [hasNul] at nul
  simp only [locate, nul, if_true]

theorem refusable_locate (plain : hasNul path = false) (s : Store) (follow : Bool) :
    Refusable (s.locate follow path) := by
  rw [hasNul] at plain
  simp only [locate, plain, Bool.false_eq_true, if_false]
  exact refusable_mapError _ fun e => .os e path

theorem stat_of_hasNul (nul : hasNul path = true) (s : Store) (follow : Bool) :
    s.stat follow path = .error .nulInPath := by
  simp only [stat, locate_of_hasNul nul]

theorem refusable_stat (plain : hasNul path = false) (s : Store) (follow : Bool) :
    Refusable (s.stat follow path) := by
  unfold stat
  cases lead : s.locate follow path with
  | ok spot =>
      cases spot with
      | found place entry => exact refusable_ok _
      | free _ => exact refusable_os _
  | error f => exact refusable_error (refusable_locate plain s follow f lead)

theorem plain_of_stat {follow : Bool} {found : Place × Entry} (ends : s.stat follow path = .ok found) :
    hasNul path = false := by
  cases nul : hasNul path with
  | false => rfl
  | true =>
      rw [stat_of_hasNul nul] at ends
      cases ends

theorem plain_of_isFile (isFile : s.isFile path = true) : hasNul path = false := by
  unfold Store.isFile at isFile
  cases ends : s.stat true path with
  | ok found => exact plain_of_stat ends
  | error f => simp [ends] at isFile

theorem plain_of_isFolder (isFolder : s.isFolder path = true) : hasNul path = false := by
  unfold Store.isFolder at isFolder
  cases ends : s.stat true path with
  | ok found => exact plain_of_stat ends
  | error f => simp [ends] at isFolder

theorem plain_of_isPresent (isPresent : s.isPresent path = true) : hasNul path = false := by
  unfold Store.isPresent at isPresent
  cases ends : s.stat true path with
  | ok found => exact plain_of_stat ends
  | error f => simp [ends, Except.isOk, Except.toBool] at isPresent

theorem mem_of_mem_split {s p : List Char} {c : Char} (part : p ∈ Path.split s) (member : c ∈ p) :
    c ∈ s := by
  induction s generalizing p with
  | nil =>
      simp only [Path.split, List.mem_singleton] at part
      subst part
      cases member
  | cons d r ih =>
      by_cases slash : d = '/'
      · simp only [Path.split, slash, if_true, List.mem_cons] at part
        rcases part with rfl | part
        · cases member
        · exact List.mem_cons_of_mem _ (ih part member)
      · simp only [Path.split, slash, if_false] at part
        cases parts : Path.split r with
        | nil =>
            simp only [parts, List.mem_singleton] at part
            subst part
            simp only [List.mem_singleton] at member
            simp [member]
        | cons q qs =>
            simp only [parts, List.mem_cons] at part
            rcases part with rfl | part
            · rcases List.mem_cons.mp member with rfl | member
              · simp
              · exact List.mem_cons_of_mem _ (ih (by simp [parts]) member)
            · exact List.mem_cons_of_mem _ (ih (by simp [parts, part]) member)

theorem of_mem_joinParts {parts : List (List Char)} {c : Char} (inside : c ≠ '/')
    (member : c ∈ Path.joinParts parts) : ∃ part ∈ parts, c ∈ part := by
  induction parts with
  | nil => cases member
  | cons first rest ih =>
      cases rest with
      | nil => exact ⟨first, by simp, member⟩
      | cons second rest =>
          simp only [Path.joinParts, List.mem_append, List.mem_cons] at member
          rcases member with member | slash | member
          · exact ⟨first, by simp, member⟩
          · exact absurd slash inside
          · obtain ⟨part, later, member⟩ := ih member
            exact ⟨part, List.mem_cons_of_mem _ later, member⟩

theorem plain_of_mem_pathsAbove (plain : hasNul path = false) {above : String}
    (member : above ∈ pathsAbove path) : hasNul above = false := by
  simp only [pathsAbove, List.mem_map] at member
  obtain ⟨k, _, rfl⟩ := member
  rw [hasNul, String.toList_ofList, List.contains_eq_mem, decide_eq_false_iff_not]
  intro nul
  rw [List.mem_append, List.mem_replicate] at nul
  rcases nul with ⟨_, slash⟩ | nul
  · cases slash
  · obtain ⟨p, part, nul⟩ := of_mem_joinParts (by decide) nul
    have part := (List.mem_filter.mp (List.mem_of_mem_take part)).1
    rw [hasNul, List.contains_eq_mem, decide_eq_false_iff_not] at plain
    exact plain (mem_of_mem_split part nul)

end Paths

end FileQuery.Store
