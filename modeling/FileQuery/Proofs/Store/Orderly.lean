import FileQuery.Proofs.Selection.Order
import FileQuery.Proofs.Store.Safe
import Mathlib.Data.List.Nodup

/-! Stores in which no two entries stand at one place. Every change leaves a store so, as it leaves it
sound; and the names in a folder are then listed once each, in the strict order of their code points. -/
set_option autoImplicit false
namespace FileQuery.Store

variable {s t : Store} {p p' : Place}

def Distinct (s : Store) : Prop := (s.entries.map Prod.fst).Nodup

instance (s : Store) : Decidable s.Distinct := inferInstanceAs (Decidable (List.Nodup _))

/-- A sound store in which no two entries stand at one place. -/
structure Orderly (s : Store) : Prop extends Sound s where
  distinct : s.Distinct

theorem orderly_empty (now : Instant) : (empty now).Orderly where
  toSound := sound_of_entries rfl
  distinct := by simp [Distinct, empty]

/-! Changes. -/

namespace Distinct

variable (distinct : s.Distinct)
include distinct

theorem filter (keep : Place × Entry → Bool) :
    Distinct { s with entries := s.entries.filter keep } :=
  List.Nodup.sublist (List.filter_sublist.map Prod.fst) distinct

theorem put (p : Place) (e : Entry) : (s.put p e).Distinct := by
  rw [Distinct, Store.put, List.map_cons, List.nodup_cons]
  refine ⟨fun member => ?_, distinct.filter _⟩
  obtain ⟨x, kept, same⟩ := List.mem_map.mp member
  have other : (x.1 != p) = true := (List.mem_filter.mp kept).2
  rw [same, bne_self_eq_false] at other
  cases other

theorem moveTree (vacant : ∀ x ∈ s.entries, ¬ p' <+: x.1) : (s.moveTree p p').Distinct := by
  have keys : (s.moveTree p p').entries.map Prod.fst = (s.entries.map Prod.fst).map fun k =>
      if p <+: k then p' ++ k.drop p.length else k := by
    rw [Store.moveTree, List.map_map, List.map_map]
    refine List.map_congr_left fun x _ => ?_
    simp only [Function.comp_apply, List.isPrefixOf_iff_prefix]
    split <;> rfl
  have free (k : Place) (member : k ∈ s.entries.map Prod.fst) : ¬ p' <+: k := by
    obtain ⟨x, stands, rfl⟩ := List.mem_map.mp member
    exact vacant x stands
  rw [Distinct, keys]
  refine List.Nodup.map_on (fun k left k' right same => ?_) distinct
  by_cases moved : p <+: k
  · rw [if_pos moved] at same
    by_cases moved' : p <+: k'
    · rw [if_pos moved'] at same
      obtain ⟨r, rfl⟩ := moved
      obtain ⟨r', rfl⟩ := moved'
      simpa using same
    · rw [if_neg moved'] at same
      exact absurd ⟨_, same⟩ (free k' right)
  · rw [if_neg moved] at same
    by_cases moved' : p <+: k'
    · rw [if_pos moved'] at same
      exact absurd ⟨_, same.symm⟩ (free k left)
    · rwa [if_neg moved'] at same

end Distinct

theorem Orderly.moveEntry (orderly : s.Orderly) {source destination : String}
    (moved : s.moveEntry source destination = .ok t) : t.Orderly := by
  refine ⟨orderly.toSound.moveEntry moved, ?_⟩
  obtain ⟨folder, folder', name, name', _, _, moves⟩ := of_moveEntry moved
  obtain ⟨e, _, ⟨_, rfl⟩ | ⟨_, may, rfl⟩⟩ := moves.done
  · exact orderly.distinct
  · -- what stood in the way is erased first, and had nothing below it
    have cleared := orderly.toSound.erase (orderly.toSound.bare_of_mayReplace may)
    have erased : (s.erase (folder' ++ [name'])).Distinct := orderly.distinct.filter _
    exact erased.moveTree (cleared.vacant (by rw [get?_erase, if_pos rfl]))

theorem custody_orderly : Custody fun s t => s.Orderly → t.Orderly where
  refl _ orderly := orderly
  trans first second orderly := second (first orderly)
  free free _ orderly := ⟨orderly.toSound.put_free free, orderly.distinct.put _ _⟩
  alike found alike orderly := ⟨orderly.toSound.put_alike found alike, orderly.distinct.put _ _⟩
  dated _ _ _ orderly := ⟨upkeep_sound.dated _ _ _ orderly.toSound, orderly.distinct⟩
  leaf found leaf orderly := ⟨custody_sound.leaf found leaf orderly.toSound, orderly.distinct.filter _⟩
  tree _ _ orderly := ⟨orderly.toSound.eraseTree, orderly.distinct.filter _⟩
  below _ _ orderly := ⟨orderly.toSound.eraseBelow, orderly.distinct.filter _⟩
  moved done orderly := orderly.moveEntry done

/-! Names. -/

theorem Distinct.nodup_names (distinct : s.Distinct) (folder : Place) : (s.names folder).Nodup := by
  have gathered : s.entries.filterMap (fun q => nameIn? folder q.1) =
      (s.entries.map Prod.fst).filterMap (nameIn? folder) := by
    rw [List.filterMap_map]
    rfl
  rw [names, (List.mergeSort_perm _ _).nodup_iff, gathered]
  refine List.Nodup.filterMap (fun p p' name left right => ?_) distinct
  rw [Option.mem_def, nameIn?_eq_some_iff] at left right
  rw [left, right]

theorem Distinct.pairwise_names (distinct : s.Distinct) (folder : Place) :
    (s.names folder).Pairwise fun a b => Text.CodePoints.ofString a < Text.CodePoints.ofString b := by
  have sorted : (s.names folder).Pairwise fun a b : String => (!decide (b < a)) = true := by
    refine List.pairwise_mergeSort (fun a b c first second => ?_) (fun a b => ?_) _
    · rw [FieldValue.not_decide_lt_iff] at first second ⊢
      exact first.trans second
    · rw [Bool.or_eq_true, FieldValue.not_decide_lt_iff, FieldValue.not_decide_lt_iff]
      exact le_total _ _
  refine (sorted.and (distinct.nodup_names folder)).imp fun {a b} both => ?_
  exact lt_of_le_of_ne (FieldValue.not_decide_lt_iff.mp both.1) fun same =>
    both.2 (FieldValue.eq_of_codes same)

end FileQuery.Store
