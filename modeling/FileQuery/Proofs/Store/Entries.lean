import FileQuery.Proofs.Store.Walk
import Mathlib.Data.List.Induction

/-! What entries a store has after some were put or erased, what names a folder has, and the stores
in which every entry has a clean name and stands in a folder. -/
set_option autoImplicit false
namespace FileQuery.Store

variable {s t : Store} {p q : Place}

theorem lookup_filter {β : Type} (keep : Place → Bool) (es : List (Place × β)) (q : Place) :
    (es.filter fun e => keep e.1).lookup q = if keep q then es.lookup q else none := by
  induction es with
  | nil => simp
  | cons e es ih =>
      obtain ⟨k, v⟩ := e
      by_cases same : q = k
      · subst same
        cases kept : keep q <;> simp [kept, ih]
      · have other : (q == k) = false := by simpa using same
        cases kept : keep k <;> simp [kept, List.lookup_cons, other, ih]

theorem get?_erase (s : Store) (p q : Place) :
    (s.erase p).get? q = if q = p then none else s.get? q := by
  rw [get?, erase, lookup_filter (fun k => k != p)]
  by_cases same : q = p <;> simp [same, get?]

theorem timesAt_erase (s : Store) {p q : Place} (apart : q ≠ p) (apart' : q ≠ p.dropLast) :
    (s.erase p).timesAt q = s.timesAt q := by
  rw [timesAt, timesAt, erase, lookup_filter (fun k => k != p && k != p.dropLast)]
  simp [apart, apart']

theorem get?_eraseTree (s : Store) (p q : Place) :
    (s.eraseTree p).get? q = if p <+: q then none else s.get? q := by
  rw [get?, eraseTree, lookup_filter (fun k => !p.isPrefixOf k)]
  by_cases below : p <+: q
  · simp [below, List.isPrefixOf_iff_prefix.mpr below]
  · have apart : p.isPrefixOf q = false := by
      rwa [← Bool.not_eq_true, List.isPrefixOf_iff_prefix]
    simp [below, apart, get?]

theorem get?_put (s : Store) (p q : Place) (e : Entry) :
    (s.put p e).get? q = if q = p then some e else s.get? q := by
  rw [get?, put, List.lookup_cons, lookup_filter (fun k => k != p)]
  by_cases same : q = p
  · simp [same]
  · have other : (q == p) = false := by simpa using same
    simp [same, other, get?]

@[simp] theorem get?_setTimes (s : Store) (p q : Place) (t : Times) :
    (s.setTimes p t).get? q = s.get? q := rfl

/-- Erasing and whatever else makes an entry vanish keeps all those that are left. -/
theorem keeps_of_get? {gone : Place → Prop} [DecidablePred gone]
    (left : ∀ q, t.get? q = if gone q then none else s.get? q) : Keeps t s := by
  intro q e found
  rw [left] at found
  split at found
  · cases found
  · exact ⟨e, found, .refl e⟩

theorem nameIn?_eq_some_iff {folder p : Place} {name : String} :
    nameIn? folder p = some name ↔ p = folder ++ [name] := by
  rw [nameIn?]
  constructor
  · intro found
    split at found
    · next stands =>
        obtain ⟨front, rfl⟩ := List.getLast?_eq_some_iff.mp found
        rw [List.dropLast_concat] at stands
        rw [stands]
    · cases found
  · rintro rfl
    simp

theorem mem_names {folder : Place} {name : String} :
    name ∈ s.names folder ↔ ∃ e, s.get? (folder ++ [name]) = some e := by
  rw [names, List.mem_mergeSort, List.mem_filterMap]
  simp only [nameIn?_eq_some_iff]
  constructor
  · rintro ⟨⟨p, v⟩, member, rfl⟩
    rw [← Option.ne_none_iff_exists', get?, Ne, List.lookup_eq_none_iff]
    intro absent
    simpa using absent _ member
  · rintro ⟨e, found⟩
    obtain ⟨front, rest, same, _⟩ := List.lookup_eq_some_iff.mp found
    exact ⟨(folder ++ [name], e), by simp [same], rfl⟩

/-- Every entry has a clean name, and stands in a folder. -/
structure Sound (s : Store) : Prop where
  named : ∀ p name e, s.get? (p ++ [name]) = some e → Path.Clean name.toList
  housed : ∀ p name e, s.get? (p ++ [name]) = some e → ∃ mode, s.get? p = some (.folder mode)

theorem Sound.of_each (each : ∀ p name e, s.get? (p ++ [name]) = some e →
    Path.Clean name.toList ∧ ∃ mode, s.get? p = some (.folder mode)) : s.Sound :=
  ⟨fun p name e found => (each p name e found).1, fun p name e found => (each p name e found).2⟩

/-- Whether an entry is the root, or has a clean name and stands in a folder. -/
def housed (s : Store) (p : Place) : Bool :=
  match p.getLast?, s.get? p.dropLast with
  | none, _ => true
  | some name, some (.folder _) => decide (Path.Clean name.toList)
  | _, _ => false

theorem sound_of_entries (each : s.entries.all fun e => s.housed e.1) : s.Sound := by
  refine .of_each fun p name e found => ?_
  obtain ⟨front, rest, same, _⟩ := List.lookup_eq_some_iff.mp found
  have housed := List.all_eq_true.mp each (p ++ [name], e) (by simp [same])
  rw [Store.housed, List.getLast?_concat, List.dropLast_concat] at housed
  split at housed
  · next none => cases none
  · next own mode last folder =>
      cases last
      exact ⟨of_decide_eq_true housed, mode, folder⟩
  · cases housed

theorem Sound.folder_of_below (sound : s.Sound) {p r : Place} {e : Entry} (some : r ≠ [])
    (found : s.get? (p ++ r) = .some e) : ∃ mode, s.get? p = .some (.folder mode) := by
  induction r using List.reverseRecOn generalizing e with
  | nil => exact absurd rfl some
  | append_singleton r name ih =>
      rw [← List.append_assoc] at found
      obtain ⟨mode, above⟩ := sound.housed _ _ _ found
      cases r with
      | nil => exact ⟨mode, by simpa using above⟩
      | cons next r => exact ih (by simp) above

theorem Sound.none_below (sound : s.Sound) {e : Entry} (found : s.get? p = some e)
    (leaf : ∀ mode, e ≠ .folder mode) (below : p <+: q) (other : q ≠ p) : s.get? q = none := by
  obtain ⟨r, rfl⟩ := below
  have some : r ≠ [] := by
    rintro rfl
    exact other (List.append_nil p)
  cases there : s.get? (p ++ r) with
  | none => rfl
  | some e' =>
      obtain ⟨mode, folder⟩ := sound.folder_of_below some there
      rw [found, Option.some.injEq] at folder
      exact absurd folder (leaf mode)

/-! Removals. -/

theorem of_removeFile {path : String} (removed : removeFile path s = (.ok (), t)) :
    ∃ place e, s.stat false path = .ok (place, e) ∧ (∀ mode, e ≠ .folder mode) ∧ t = s.erase place := by
  rw [removeFile, Change.ofExcept] at removed
  rcases ends : s.stat false path with f | ⟨place, e⟩
  · simp [ends, bind, Except.bind] at removed
  · cases e with
    | folder mode => simp [ends, bind, Except.bind, throw, throwThe, MonadExceptOf.throw] at removed
    | file bytes mode modified =>
        simp only [ends, bind, Except.bind, pure, Except.pure, Prod.mk.injEq, true_and] at removed
        exact ⟨place, _, rfl, by simp, removed.symm⟩
    | link target =>
        simp only [ends, bind, Except.bind, pure, Except.pure, Prod.mk.injEq, true_and] at removed
        exact ⟨place, _, rfl, by simp, removed.symm⟩

theorem of_removeTree {path : String} (removed : removeTree path s = (.ok (), t)) :
    ∃ place mode, s.stat false path = .ok (place, .folder mode) ∧ t = s.eraseTree place := by
  rw [removeTree] at removed
  rcases ends : s.stat false path with f | ⟨place, e⟩
  · rw [ends] at removed
    cases removed
  · rw [ends] at removed
    cases e with
    | folder mode =>
        dsimp only at removed
        split at removed
        · cases removed
        · split at removed
          · cases removed
          · cases removed
            exact ⟨place, mode, rfl, rfl⟩
    | file bytes mode modified => cases removed
    | link target =>
        dsimp only at removed
        split at removed <;> cases removed

theorem isFolder_of_stat {path : String} {place : Place} {mode : Nat}
    (ends : s.stat true path = .ok (place, .folder mode)) : s.isFolder path = true := by
  rw [isFolder, ends]

theorem of_isFolder {path : String} (isFolder : s.isFolder path = true) :
    ∃ p mode, s.stat true path = .ok (p, .folder mode) := by
  rw [Store.isFolder] at isFolder
  split at isFolder
  · next p mode ends => exact ⟨p, mode, ends⟩
  · cases isFolder

theorem of_isFile {path : String} (isFile : s.isFile path = true) :
    ∃ p bytes mode modified, s.stat true path = .ok (p, .file bytes mode modified) := by
  rw [Store.isFile] at isFile
  split at isFile
  · next p bytes mode modified ends => exact ⟨p, bytes, mode, modified, ends⟩
  · cases isFile

/-! Changes that fail. -/

theorem unchanged_of_ofExcept {f : Store → Except Fault Store} {e : Fault}
    (failed : Change.ofExcept f s = (.error e, t)) : t = s := by
  rw [Change.ofExcept] at failed
  cases done : f s with
  | ok s' =>
      rw [done] at failed
      cases failed
  | error e' =>
      rw [done] at failed
      cases failed
      rfl

theorem unchanged_of_removeTree {path : String} {e : Fault} (missing : s.isFolder path = false)
    (failed : removeTree path s = (.error e, t)) : t = s := by
  rw [removeTree] at failed
  rcases ends : s.stat false path with f | ⟨place, entry⟩
  · rw [ends] at failed
    cases failed
    rfl
  · rw [ends] at failed
    cases entry with
    | folder mode =>
        rw [isFolder_of_stat (stat_follow (by simp) ends)] at missing
        cases missing
    | file bytes mode modified =>
        cases failed
        rfl
    | link target =>
        dsimp only at failed
        split at failed <;> cases failed <;> rfl

theorem unchanged_of_copyFile {source destination : String} {e : Fault}
    (failed : copyFile source destination s = (.error e, t)) : t = s := by
  rw [copyFile] at failed
  split at failed
  · cases failed
    rfl
  · split at failed
    · cases failed
      rfl
    · exact unchanged_of_ofExcept failed

theorem copyTree_of_missing {source : String} (missing : s.isFolder source = false)
    (destination : String) :
    ∃ f, copyTree source destination s = (.error f, s) ∧
      (f = .nulInPath ∨ s.namesAt source = .error f) := by
  have refused : ∃ f, s.namesAt source = .error f := by
    rw [isFolder] at missing
    rw [namesAt]
    rcases ends : s.stat true source with f | ⟨place, entry⟩ <;> rw [ends] at missing
    · exact ⟨f, rfl⟩
    · cases entry with
      | folder mode => cases missing
      | file bytes mode modified => exact ⟨_, rfl⟩
      | link target => exact ⟨_, rfl⟩
  obtain ⟨f, refused⟩ := refused
  rw [copyTree]
  split
  · exact ⟨_, rfl, .inl rfl⟩
  · unfold copyLevels
    rw [refused]
    exact ⟨f, rfl, .inr rfl⟩

/-! Copies that succeed. -/

theorem isFile_of_copyFile {source destination : String}
    (copied : (copyFile source destination s).1 = .ok ()) : s.isFile source = true := by
  rw [copyFile] at copied
  split at copied
  · cases copied
  · split at copied
    · cases copied
    · rw [copyBytes, Change.ofExcept, bytesAt] at copied
      rw [isFile]
      rcases ends : s.stat true source with f | ⟨place, entry⟩
      · rw [ends] at copied
        cases copied
      · rw [ends] at copied
        cases entry with
        | file bytes mode modified => rfl
        | folder mode => cases copied
        | link target => cases copied

theorem isFolder_of_copyTree {source destination : String}
    (copied : (copyTree source destination s).1 = .ok ()) : s.isFolder source = true := by
  cases missing : s.isFolder source with
  | true => rfl
  | false =>
      obtain ⟨f, failed, _⟩ := copyTree_of_missing missing destination
      rw [failed] at copied
      cases copied

end FileQuery.Store
