import FileQuery.Proofs.Store.Child
import FileQuery.Proofs.Store.Safe

/-! How a store grows while entries are copied into it. It keeps what it has, gets no links, and is
the same outside of the places that are written (`Grows`); so a path leads where it led, and to the
same entry unless that is one of those places. -/
set_option autoImplicit false
namespace FileQuery.Store

open Path (Canonical Clean)

variable {s t u : Store} {p q : Place} {e : Entry} {path folder name : String} {follow : Bool}

/-- A store with all entries of another, and with no links but those. -/
structure Extends (s t : Store) : Prop where
  keeps : Keeps s t
  links : ∀ q target, t.get? q = some (.link target) → s.get? q = some (.link target)

theorem upkeep_extends : Upkeep Extends where
  dated s p t := ⟨fun q e found => ⟨e, found, .refl e⟩, fun _ _ link => link⟩
  refl s := ⟨.refl s, fun _ _ link => link⟩
  trans first second := ⟨first.keeps.trans second.keeps,
    fun q target link => first.links q target (second.links q target link)⟩
  free {s p e} free noLink := by
    refine ⟨fun q e' found => ⟨e', ?_, .refl e'⟩, fun q target link => ?_⟩
    · rw [get?_put, if_neg]
      · exact found
      · rintro rfl
        rw [free.1] at found
        cases found
    · rw [get?_put] at link
      split at link
      · exact absurd (Option.some.inj link) (noLink target)
      · exact link
  alike {s p e e'} there alike := by
    refine ⟨fun q e'' found => ?_, fun q target link => ?_⟩
    · rw [get?_put]
      by_cases own : q = p
      · subst own
        rw [there, Option.some.injEq] at found
        exact ⟨e', if_pos rfl, found ▸ alike⟩
      · exact ⟨e'', by rw [if_neg own, found], .refl e''⟩
    · rw [get?_put] at link
      split at link
      · next own =>
          rw [own, there]
          obtain rfl := Option.some.inj link
          cases e <;> cases alike
          rfl
      · exact link

/-- Whether no link stands at a place or below it. -/
def Linkless (s : Store) (p : Place) : Prop := ∀ q target, p <+: q → s.get? q ≠ some (.link target)

theorem Linkless.below (linkless : s.Linkless p) (below : p <+: q) : s.Linkless q :=
  fun r target further => linkless r target (below.trans further)

theorem Extends.linkless (extends' : Extends s t) (linkless : s.Linkless p) : t.Linkless p :=
  fun q target below link => linkless q target below (extends'.links q target link)

/-! ## Growth at places -/

variable {within within' : Place → Prop}

/-- A store that extends another and differs from it at some places only. -/
structure Grows (within : Place → Prop) (s t : Store) : Prop extends Extends s t where
  away : ∀ q, ¬ within q → t.get? q = s.get? q

namespace Grows

theorem refl (within : Place → Prop) (s : Store) : Grows within s s :=
  ⟨upkeep_extends.refl s, fun _ _ => rfl⟩

theorem trans (first : Grows within s t) (second : Grows within t u) : Grows within s u :=
  ⟨upkeep_extends.trans first.toExtends second.toExtends,
    fun q outside => (second.away q outside).trans (first.away q outside)⟩

theorem mono (grows : Grows within s t) (wider : ∀ q, within q → within' q) : Grows within' s t :=
  ⟨grows.toExtends, fun q outside => grows.away q fun inside => outside (wider q inside)⟩

theorem stat (grows : Grows within s t) (ends : s.stat follow path = .ok (p, e))
    (outside : ¬ within p) : t.stat follow path = .ok (p, e) := by
  obtain ⟨e', ends', _⟩ := grows.keeps.stat ends
  have found := get?_of_stat ends'
  rw [grows.away p outside, get?_of_stat ends, Option.some.injEq] at found
  rw [ends', found]

end Grows

theorem Keeps.stat_folder {mode : Nat} (keeps : Keeps s t)
    (ends : s.stat follow path = .ok (p, .folder mode)) :
    ∃ mode', t.stat follow path = .ok (p, .folder mode') := by
  obtain ⟨e, ends', alike⟩ := keeps.stat ends
  cases e with
  | folder mode' => exact ⟨mode', ends'⟩
  | file bytes mode' modified => cases alike
  | link target => cases alike

theorem Keeps.isFolder (keeps : Keeps s t) (isFolder : s.isFolder path = true) : t.isFolder path = true := by
  rw [Store.isFolder] at isFolder
  split at isFolder
  · next ends =>
      obtain ⟨mode', ends'⟩ := keeps.stat_folder ends
      exact isFolder_of_stat ends'
  · cases isFolder

/-! ## Folders -/

theorem of_ensureFolder (made : ensureFolder path s = (.ok (), t)) :
    t = s ∧ s.isFolder path = true ∨
      ∃ p, s.locate false path = .ok (.free p) ∧ t = s.put p (.folder folderMode) := by
  rw [ensureFolder] at made
  rcases isMade : makeFolder path s with ⟨f | _, u⟩ <;> rw [isMade] at made
  · obtain rfl := unchanged_of_ofExcept isMade
    dsimp only at made
    split at made
    · next isFolder =>
        cases made
        exact .inl ⟨rfl, isFolder⟩
    · cases made
  · cases made
    obtain ⟨spot, located, done⟩ := of_bind_eq_ok (of_ofExcept isMade)
    cases spot with
    | found q e => cases done
    | free q =>
        cases done
        exact .inr ⟨q, located, rfl⟩

theorem not_isFolder_of_ensureFolder {f : Fault} (failed : ensureFolder path s = (.error f, t)) :
    t.isFolder path = false := by
  rw [ensureFolder] at failed
  rcases isMade : makeFolder path s with ⟨g | _, u⟩ <;> rw [isMade] at failed
  · dsimp only at failed
    split at failed
    · cases failed
    · next missing =>
        cases failed
        simpa using missing
  · cases failed

/-! ## Sites -/

/-- A name in a folder at a place, where no link stands at the name or below it. -/
structure Site (s : Store) (folder name : String) (place : Place) : Prop where
  canonical : Canonical folder.toList
  clean : Clean name.toList
  inFolder : ∃ mode, s.stat true folder = .ok (place, .folder mode)
  linkless : s.Linkless (place ++ [name])

namespace Site

variable {place : Place} (site : Site s folder name place)
include site

theorem locate {spot : Spot} (located : s.locate follow (joinName folder name) = .ok spot) :
    Fits folder name ∧ spot = s.spotAt (place ++ [name]) := by
  obtain ⟨mode, ends⟩ := site.inFolder
  refine (locate_joinName ends site.clean fun target link => ?_).mp located
  exact absurd link (site.linkless _ target (List.prefix_refl _))

theorem stat (ends : s.stat follow (joinName folder name) = .ok (q, e)) :
    q = place ++ [name] ∧ s.get? (place ++ [name]) = some e := by
  obtain ⟨_, spot⟩ := site.locate (stat_eq_ok_iff_locate.mp ends)
  rw [spotAt] at spot
  split at spot
  · next e' found =>
      cases spot
      exact ⟨rfl, found⟩
  · cases spot

theorem below {name' : String} (isFolder : s.isFolder (joinName folder name) = true)
    (clean : Clean name'.toList) : Site s (joinName folder name) name' (place ++ [name]) := by
  obtain ⟨q, mode, ends⟩ := of_isFolder isFolder
  obtain ⟨rfl, _⟩ := site.stat ends
  exact ⟨canonical_joinName site.canonical site.clean, clean, ⟨mode, ends⟩,
    site.linkless.below (List.prefix_append _ _)⟩

theorem ensureFolder (made : ensureFolder (joinName folder name) s = (.ok (), t)) :
    Grows (· = place ++ [name]) s t ∧
      ∃ mode, t.stat true (joinName folder name) = .ok (place ++ [name], .folder mode) := by
  have further := (upkeep_extends.ensureFolder (joinName folder name)).of_done made
  rcases of_ensureFolder made with ⟨rfl, isFolder⟩ | ⟨q, located, rfl⟩
  · obtain ⟨q, mode, ends⟩ := of_isFolder isFolder
    obtain ⟨rfl, _⟩ := site.stat ends
    exact ⟨.refl _ _, mode, ends⟩
  · have last := congrArg Spot.place (site.locate located).2
    rw [place_spotAt] at last
    obtain rfl : q = place ++ [name] := last
    refine ⟨⟨further, fun r other => ?_⟩, _,
      stat_put (leaf_of_free (stands_locate located)) (by simp) located rfl⟩
    rw [get?_put, if_neg other]

theorem copied {source : String} (bytes : copyBytes source (joinName folder name) s = (.ok (), u))
    (status : copyStatus source (joinName folder name) u = (.ok (), t)) :
    Grows (· = place ++ [name]) s t ∧ ∃ b mode modified, s.bytesAt source = .ok b ∧
      t.stat true (joinName folder name) = .ok (place ++ [name], .file b mode modified) := by
  have further := (upkeep_extends.copyBytes source (joinName folder name)).of_done bytes
  have further' := (upkeep_extends.copyStatus source (joinName folder name)).of_done status
  obtain ⟨b, read, done⟩ := of_bind_eq_ok (of_ofExcept bytes)
  obtain ⟨⟨q, old, mode⟩, opens, done⟩ := of_bind_eq_ok done
  obtain ⟨leaf, spot, located, last⟩ := of_target opens
  obtain rfl : place ++ [name] = q := by
    rw [← last, (site.locate located).2, place_spotAt]
  cases done
  have written : (s.put (place ++ [name]) (.file b mode s.now)).stat true (joinName folder name) =
      .ok (place ++ [name], .file b mode s.now) := stat_put leaf (by simp) located last
  obtain ⟨⟨_, e⟩, _, done⟩ := of_bind_eq_ok (of_ofExcept status)
  obtain ⟨⟨_, e'⟩, ends, done⟩ := of_bind_eq_ok done
  rw [putBytes, written] at ends
  cases ends
  -- the file has the bytes, whatever becomes of its mode and its time
  have settled : ∃ mode' modified', t.get? (place ++ [name]) = some (.file b mode' modified') ∧
      ∀ r, r ≠ place ++ [name] → t.get? r = s.get? r := by
    cases e with
    | file bytes' mode' modified' =>
        cases done
        refine ⟨mode', modified', by rw [get?_put, if_pos rfl], fun r other => ?_⟩
        rw [get?_put, if_neg other, putBytes, get?_put, if_neg other]
    | folder mode' =>
        cases done
        refine ⟨mode', s.now, by rw [get?_setTimes, get?_put, if_pos rfl]; rfl, fun r other => ?_⟩
        rw [get?_setTimes, get?_put, if_neg other, putBytes, get?_put, if_neg other]
    | link target =>
        cases done
        refine ⟨mode, s.now, by rw [putBytes, get?_put, if_pos rfl], fun r other => ?_⟩
        rw [putBytes, get?_put, if_neg other]
  obtain ⟨mode', modified', there, away⟩ := settled
  refine ⟨⟨upkeep_extends.trans further further', away⟩, b, mode', modified', read, ?_⟩
  obtain ⟨e, ends, _⟩ := further'.keeps.stat written
  have found := get?_of_stat ends
  rw [there, Option.some.injEq] at found
  rw [ends, ← found]

end Site

end FileQuery.Store
