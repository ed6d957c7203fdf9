import FileQuery.Proofs.Store.Grows

/-! Folders made on the way to a path. Once the first missing one is made all that follow are missing
too, and each is made in the one before it. So if there is a folder in the end, either nothing was
made or that folder is new, and nothing was made but folders above it and itself (`ensured`). -/
set_option autoImplicit false
namespace FileQuery.Path

theorem Canonical.eq_slashes {a : List Char} (canonical : Canonical a) :
    a = List.replicate (rootSlashes a) '/' ++ joinParts (solid a) := by
  induction canonical with
  | root slashes => rcases slashes with rfl | rfl <;> decide
  | @join a n above clean ih =>
      have plain : ∀ p ∈ solid a, p ≠ [] ∧ '/' ∉ p := by
        intro p member
        rw [solid, List.mem_filter] at member
        exact ⟨by simpa using member.2, slashless_of_mem_split member.1⟩
      rw [clean.rootSlashes_join, clean.solid_join, ← clean.join_slashes above.rooted plain, ← ih]

end FileQuery.Path

namespace FileQuery.Store

open Path (Canonical Clean)

variable {s t : Store} {path folder name : String} {p q : Place} {e : Entry} {mode : Nat}

theorem pathsAbove_joinName (canonical : Canonical folder.toList) (clean : Clean name.toList) :
    pathsAbove (joinName folder name) = joinName folder name :: pathsAbove folder := by
  have whole := (canonical_joinName canonical clean).eq_slashes
  have parts : Path.solid (joinName folder name).toList = Path.solid folder.toList ++ [name.toList] := by
    rw [joinName, String.toList_ofList, clean.solid_join]
  have root : Path.rootSlashes (joinName folder name).toList = Path.rootSlashes folder.toList := by
    rw [joinName, String.toList_ofList, clean.rootSlashes_join]
  have last : String.ofList (List.replicate (Path.rootSlashes folder.toList) '/' ++
      Path.joinParts (Path.solid folder.toList ++ [name.toList])) = joinName folder name := by
    rw [← root, ← parts, ← whole, String.ofList_toList]
  rw [pathsAbove, pathsAbove, ← Path.solid, ← Path.solid, parts, root, List.length_append, List.length_singleton,
    List.range_succ, List.reverse_append, List.reverse_singleton, List.singleton_append, List.map_cons,
    List.take_of_length_le (by simp), last]
  refine congrArg _ (List.map_congr_left fun k member => ?_)
  rw [List.mem_reverse, List.mem_range] at member
  rw [List.take_append_of_le_length (by omega)]

theorem pathsAbove_root {k : Nat} (slashes : k = 1 ∨ k = 2) :
    pathsAbove (String.ofList (List.replicate k '/')) = [String.ofList (List.replicate k '/')] := by
  rcases slashes with rfl | rfl <;> decide

theorem pathsAbove_cons (canonical : Canonical path.toList) :
    ∃ rest, pathsAbove path = path :: rest := by
  induction path, canonical using canonical_induction with
  | root k slashes => exact ⟨[], pathsAbove_root slashes⟩
  | join folder name above clean _ => exact ⟨_, pathsAbove_joinName above clean⟩

/-- The folders on the way to a name in a folder are those on the way to the folder, and it. -/
theorem ensureFolders_joinName (canonical : Canonical folder.toList) (clean : Clean name.toList)
    (n : Nat) (s : Store) :
    ensureFolders (n + 1) (pathsAbove (joinName folder name)) s =
      if s.isPresent folder then ensureFolder (joinName folder name) s
      else match ensureFolders n (pathsAbove folder) s with
        | (.error (.os (.os .alreadyExists _)), s') => ensureFolder (joinName folder name) s'
        | (.error f, s') => (.error f, s')
        | (.ok _, s') => ensureFolder (joinName folder name) s' := by
  obtain ⟨rest, above⟩ := pathsAbove_cons canonical
  rw [pathsAbove_joinName canonical clean, above]
  rfl

/-- A store with all entries of another, and with no others but folders at or above a place. -/
structure Furnished (p : Place) (s t : Store) : Prop where
  kept : ∀ q e, s.get? q = some e → t.get? q = some e
  made : ∀ q e, t.get? q = some e → s.get? q = some e ∨ q <+: p ∧ ∃ mode, e = .folder mode

theorem Furnished.refl (p : Place) (s : Store) : Furnished p s s :=
  ⟨fun _ _ found => found, fun _ _ found => .inl found⟩

/-- A path at which folders were made leads to a folder, and nothing was made, or that folder is new
and nothing but folders above it is. -/
structure Ensured (s t : Store) (path : String) (place : Place) : Prop where
  leads : ∃ mode, t.stat true path = .ok (place, .folder mode)
  furnished : Furnished place s t
  fresh : t = s ∨ s.get? place = none

theorem ensured_of_isFolder (isFolder : s.isFolder path = true) : ∃ p, Ensured s s path p := by
  obtain ⟨p, mode, ends⟩ := Store.of_isFolder isFolder
  exact ⟨p, ⟨mode, ends⟩, .refl p s, .inl rfl⟩

/-- A folder that is made in a new one, or in one before which nothing was made. -/
theorem Ensured.makeFolder (ensured : Ensured s t folder p) (clean : Clean name.toList)
    (located : t.locate false (joinName folder name) = .ok (.free q)) :
    Ensured s (t.put q (.folder folderMode)) (joinName folder name) q := by
  obtain ⟨mode, ends⟩ := ensured.leads
  have stands := stands_locate located
  have last := congrArg Spot.place
    ((locate_joinName ends clean fun _ _ => rfl).mp located).2
  rw [place_spotAt] at last
  obtain rfl : q = p ++ [name] := last
  have vacant : s.get? (p ++ [name]) = none := by
    cases found : s.get? (p ++ [name]) with
    | none => rfl
    | some e =>
        have there := ensured.furnished.kept _ _ found
        rw [stands.1] at there
        cases there
  refine ⟨⟨_, stat_put (leaf_of_free stands) (by simp) located rfl⟩, ⟨fun r e found => ?_, fun r e found => ?_⟩,
    .inr vacant⟩
  · rw [get?_put, if_neg]
    · exact ensured.furnished.kept r e found
    · rintro rfl
      rw [vacant] at found
      cases found
  · rw [get?_put] at found
    split at found
    · next own =>
        refine .inr ⟨own ▸ List.prefix_refl _, folderMode, ?_⟩
        exact (Option.some.inj found).symm
    · refine (ensured.furnished.made r e found).imp id fun made => ⟨?_, made.2⟩
      exact made.1.trans (List.prefix_append _ _)

theorem Ensured.ensureFolder {u : Store} (ensured : Ensured s t folder p) (sound : s.Sound)
    (clean : Clean name.toList)
    (made : ensureFolder (joinName folder name) t = (.ok (), u)) :
    ∃ q, Ensured s u (joinName folder name) q := by
  rcases of_ensureFolder made with ⟨rfl, isFolder⟩ | ⟨q, located, rfl⟩
  · rcases ensured.fresh with rfl | fresh
    · exact ensured_of_isFolder isFolder
    · -- nothing is in a folder that is new
      obtain ⟨mode, ends⟩ := ensured.leads
      have vacant : u.get? (p ++ [name]) = none := by
        cases found : u.get? (p ++ [name]) with
        | none => rfl
        | some e =>
            rcases ensured.furnished.made _ _ found with old | ⟨above, _⟩
            · rw [sound.none_below_none fresh (List.prefix_append _ _)] at old
              cases old
            · exact absurd above (not_below_self p name)
      obtain ⟨r, mode', ends'⟩ := Store.of_isFolder isFolder
      obtain ⟨_, spot⟩ := (locate_joinName ends clean fun target link => by
        rw [vacant] at link
        cases link).mp (stat_eq_ok_iff_locate.mp ends')
      rw [spotAt, vacant] at spot
      cases spot
  · exact ⟨q, ensured.makeFolder clean located⟩

theorem isFolder_of_locate_joinName {follow : Bool} {spot : Spot} (canonical : Canonical folder.toList)
    (clean : Clean name.toList) (located : s.locate follow (joinName folder name) = .ok spot) :
    s.isFolder folder = true := by
  obtain ⟨p, mode, ends⟩ := folder_of_locate_joinName canonical clean located
  exact isFolder_of_stat ends

theorem isFolder_above (canonical : Canonical folder.toList) (clean : Clean name.toList)
    (isFolder : s.isFolder (joinName folder name) = true) : s.isFolder folder = true := by
  obtain ⟨p, mode, ends⟩ := of_isFolder isFolder
  exact isFolder_of_locate_joinName canonical clean (stat_eq_ok_iff_locate.mp ends)

theorem isFolder_of_ensureFolder (canonical : Canonical folder.toList) (clean : Clean name.toList)
    (made : ensureFolder (joinName folder name) s = (.ok (), t)) : s.isFolder folder = true := by
  rcases of_ensureFolder made with ⟨rfl, isFolder⟩ | ⟨q, located, rfl⟩
  · exact isFolder_above canonical clean isFolder
  · exact isFolder_of_locate_joinName canonical clean located

theorem not_free_root {k : Nat} (slashes : k = 1 ∨ k = 2) {follow : Bool} :
    s.locate follow (String.ofList (List.replicate k '/')) ≠ .ok (.free p) := by
  intro located
  obtain ⟨_, _, _, ends⟩ := locate_eq_ok_iff.mp located
  rw [pathNames_root slashes, walk_eq_enter, enter] at ends
  split at ends <;> cases ends

/-- Folders on the way to a path are ensured up to it. What is in the way of them is no folder. -/
theorem ensured (sound : s.Sound) (canonical : Canonical path.toList) (n : Nat) :
    (∀ t, ensureFolders n (pathsAbove path) s = (.ok (), t) → ∃ p, Ensured s t path p) ∧
      ∀ p t, ensureFolders n (pathsAbove path) s = (.error (.os (.os .alreadyExists p)), t) →
        t.isFolder path = false := by
  induction path, canonical using canonical_induction generalizing n with
  | root k slashes =>
      rw [pathsAbove_root slashes]
      cases n with
      | zero => exact ⟨fun t made => (by cases made), fun p t failed => (by cases failed)⟩
      | succ n =>
          refine ⟨fun t made => ?_, fun p t failed => not_isFolder_of_ensureFolder failed⟩
          rcases of_ensureFolder made with ⟨rfl, isFolder⟩ | ⟨q, located, rfl⟩
          · exact ensured_of_isFolder isFolder
          · exact absurd located (not_free_root slashes)
  | join folder name canonical clean ih =>
      cases n with
      | zero => exact ⟨fun t made => (by cases made), fun p t failed => (by cases failed)⟩
      | succ n =>
          rw [ensureFolders_joinName canonical clean]
          split
          · refine ⟨fun t made => ?_, fun p t failed => not_isFolder_of_ensureFolder failed⟩
            obtain ⟨p, ensured⟩ := ensured_of_isFolder (isFolder_of_ensureFolder canonical clean made)
            exact ensured.ensureFolder sound clean made
          · split
            · -- what the path above leads to is in the way of folders, so it is no folder
              next stopped =>
              have missing := (ih n).2 _ _ stopped
              refine ⟨fun t made => ?_, fun p t failed => not_isFolder_of_ensureFolder failed⟩
              rw [isFolder_of_ensureFolder canonical clean made] at missing
              cases missing
            · next other _ =>
              refine ⟨fun t made => (by cases made), fun p t failed => ?_⟩
              cases failed
              exact absurd rfl (other p)
            · next done =>
              obtain ⟨p, ensured⟩ := (ih n).1 _ done
              exact ⟨fun t made => ensured.ensureFolder sound clean made,
                fun p t failed => not_isFolder_of_ensureFolder failed⟩

end FileQuery.Store
