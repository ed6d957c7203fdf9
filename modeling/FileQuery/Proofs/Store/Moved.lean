import FileQuery.Proofs.Store.Child
import FileQuery.Proofs.Store.Safe

/-! Where a move takes an entry. What stood at one place and below it stands at another, and nothing
else has changed but what stood there (`Relocated`). The path of the new place leads to it as long as
the folder on that path still is where it was. -/
set_option autoImplicit false
namespace FileQuery.Store

open Path (Canonical Clean)

variable {s t : Store} {source folder name : String} {p p' : Place}

/-- Whether all that stood at a place and below it stands at another, and nothing else has changed. -/
structure Relocated (s t : Store) (p p' : Place) : Prop where
  there : ∀ r, t.get? (p' ++ r) = s.get? (p ++ r)
  gone : ∀ q, p <+: q → ¬ p' <+: q → t.get? q = none
  away : ∀ q, ¬ p <+: q → ¬ p' <+: q → t.get? q = s.get? q

theorem Relocated.refl (s : Store) (p : Place) : Relocated s s p p :=
  ⟨fun _ => rfl, fun _ below outside => absurd below outside, fun _ _ _ => rfl⟩

theorem Moves.relocated {folder folder' : Place} {name name' : String}
    (moves : Moves s t folder folder' name name') (sound : s.Sound) :
    Relocated s t (folder ++ [name]) (folder' ++ [name']) := by
  obtain ⟨e, _, ⟨same, rfl⟩ | ⟨other, may, rfl⟩⟩ := moves.done
  · rw [same]
    exact .refl t _
  · have vacant := (sound.erase (sound.bare_of_mayReplace may)).vacant
      (p := folder' ++ [name']) (by rw [get?_erase, if_pos rfl])
    have after := get?_moveTree (p := folder ++ [name]) vacant
    have apart : ∀ r, folder ++ [name] ++ r ≠ folder' ++ [name'] := by
      intro r same
      have below : folder ++ [name] <+: folder' ++ [name'] := ⟨r, same⟩
      rcases List.prefix_concat_iff.mp below with same | below
      · exact other same
      · exact moves.outside below
    refine ⟨fun r => ?_, fun q below outside => ?_, fun q outside outside' => ?_⟩
    · rw [after, if_pos (List.prefix_append _ _), List.drop_left, get?_erase, if_neg (apart r)]
    · rw [after, if_neg outside, if_pos below]
    · rw [after, if_neg outside', if_neg outside, get?_erase, if_neg]
      rintro rfl
      exact outside' (List.prefix_refl _)

theorem parentOf_root {k : Nat} (slashes : k = 1 ∨ k = 2) :
    s.parentOf (String.ofList (List.replicate k '/')) ≠ .ok (p, some name) := by
  intro parent
  rw [parentOf, pathNames_root slashes] at parent
  split at parent
  · cases parent
  · split at parent <;> cases parent

theorem of_move {destination : String} (moved : move source destination s = (.ok (), t)) :
    hasNul source = false ∧ hasNul destination = false ∧ s.moveEntry source destination = .ok t := by
  have done := of_ofExcept moved
  split at done
  · cases done
  · next plain =>
      rw [Bool.not_eq_true, Bool.or_eq_false_iff] at plain
      refine ⟨plain.1, plain.2, ?_⟩
      cases entry : s.moveEntry source destination with
      | error e =>
          rw [entry] at done
          cases done
      | ok t' =>
          rw [entry] at done
          cases done
          rfl

/-- A moved entry is at its new name in the folder, with all that is below it. -/
theorem relocated_of_move (sound : s.Sound) (canonical : Canonical source.toList)
    (canonical' : Canonical folder.toList) (clean : Clean name.toList)
    (moved : move source (joinName folder name) s = (.ok (), t)) :
    ∃ p p' e mode, s.stat false source = .ok (p, e) ∧ s.stat true folder = .ok (p', .folder mode) ∧
      Relocated s t p (p' ++ [name]) ∧
      ∀ mode', t.stat true folder = .ok (p', .folder mode') →
        t.stat false (joinName folder name) = .ok (p' ++ [name], e) := by
  obtain ⟨plain, plain', entry⟩ := of_move moved
  obtain ⟨above, p', own, name', parent, parent', moves⟩ := of_moveEntry entry
  obtain ⟨last, short', mode', inFolder'⟩ := of_parentOf_joinName canonical' clean plain' parent'
  cases last
  obtain ⟨e, found, _⟩ := moves.done
  have relocated := moves.relocated sound
  have leads : s.stat false source = .ok (above ++ [own], e) := by
    induction source, canonical using canonical_induction with
    | root k slashes => exact absurd parent (parentOf_root slashes)
    | join upper last canonical clean _ =>
        obtain ⟨same, short, mode, inFolder⟩ := of_parentOf_joinName canonical clean plain parent
        cases same
        exact stat_joinName_of_get? inFolder clean ⟨plain, short, moves.short⟩ found fun _ _ => rfl
  refine ⟨_, p', e, mode', leads, inFolder', relocated, fun mode'' inFolder'' => ?_⟩
  have there := relocated.there []
  rw [List.append_nil, List.append_nil, found] at there
  exact stat_joinName_of_get? inFolder'' clean ⟨plain', short', moves.short'⟩ there fun _ _ => rfl

end FileQuery.Store
