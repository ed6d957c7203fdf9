import FileQuery.Proofs.Store.Sound
import FileQuery.Store.Transfer

/-! What all changes uphold, be it that they fail half way. Making folders, writing and copying come
down to three steps, a file or a folder put at a free name, an entry put in the stead of one alike and
times set, so they uphold whatever these do (`Upkeep`): a sound store stays sound, an entry stays where it is. What
removals and moves uphold as well, all changes do (`Custody`): a sound store stays sound. -/
set_option autoImplicit false
namespace FileQuery.Store

variable {s t : Store} {place : Place}

/-- What holds between a store and the one that such steps make of it. -/
structure Upkeep (R : Store → Store → Prop) : Prop where
  refl : ∀ s, R s s
  trans : ∀ {s t u : Store}, R s t → R t u → R s u
  free : ∀ {s : Store} {p : Place} {e : Entry}, (Spot.free p).Stands s → (∀ target, e ≠ .link target) →
    R s (s.put p e)
  alike : ∀ {s : Store} {p : Place} {e e' : Entry}, s.get? p = some e → e.Alike e' → R s (s.put p e')
  dated : ∀ (s : Store) (p : Place) (t : Times), R s (s.setTimes p t)

/-- Whether something holds between a store and what a change makes of it, also if it fails. -/
def Change.Upholds (R : Store → Store → Prop) (c : Change) : Prop := ∀ s : Store, R s (c s).2

theorem Change.Upholds.of_done {R : Store → Store → Prop} {c : Change} (upholds : c.Upholds R)
    {s t : Store} {x : Except Store.Fault Unit} (done : c s = (x, t)) : R s t := by
  have kept := upholds s
  rwa [done] at kept

theorem Entry.alike_withMode (mode : Nat) (e : Entry) : e.Alike (Entry.withMode mode e) := by
  cases e with
  | folder _ => trivial
  | file _ _ _ => trivial
  | link target => rfl

namespace Upkeep

variable {R : Store → Store → Prop} (upkeep : Upkeep R)
include upkeep

theorem ofExcept {f : Store → Except Fault Store} (done : ∀ s t : Store, f s = .ok t → R s t) :
    (Change.ofExcept f).Upholds R := by
  intro s
  rw [Change.ofExcept]
  cases changed : f s with
  | ok t => exact done s t changed
  | error e => exact upkeep.refl s

/-! Folders. -/

theorem makeFolder (path : String) : (makeFolder path).Upholds R := by
  refine upkeep.ofExcept fun s t made => ?_
  obtain ⟨spot, located, made⟩ := of_bind_eq_ok made
  cases spot with
  | found place e => cases made
  | free place =>
      cases made
      exact upkeep.free (stands_locate located) (by simp)

theorem ensureFolder (path : String) : (ensureFolder path).Upholds R := by
  intro s
  have kept := upkeep.makeFolder path s
  rw [Store.ensureFolder]
  rcases made : Store.makeFolder path s with ⟨f | _, t⟩ <;> rw [made] at kept
  · dsimp only
    split <;> exact kept
  · exact kept

theorem ensureFolders (room : Nat) (paths : List String) : (ensureFolders room paths).Upholds R := by
  fun_induction Store.ensureFolders room paths with
  | case1 => exact upkeep.refl
  | case2 => exact upkeep.refl
  | case3 n path => exact upkeep.ensureFolder path
  | case4 n path above rest ih =>
      intro s
      have kept := ih s
      dsimp only
      split
      · exact upkeep.ensureFolder path s
      · split
        · next same =>
            rw [same] at kept
            exact upkeep.trans kept (upkeep.ensureFolder path _)
        · next same =>
            rw [same] at kept
            exact kept
        · next same =>
            rw [same] at kept
            exact upkeep.trans kept (upkeep.ensureFolder path _)

/-! Modes. -/

theorem setMode (path : String) (mode : Nat) : (setMode path mode).Upholds R := by
  refine upkeep.ofExcept fun s t changed => ?_
  obtain ⟨⟨place, e⟩, ends, changed⟩ := of_bind_eq_ok changed
  cases changed
  exact upkeep.trans (upkeep.alike (get?_of_stat ends) (Entry.alike_withMode mode e)) (upkeep.dated _ _ _)

/-! Texts and bytes. -/

theorem putBytes {path : String} {old bytes : ByteArray} {mode : Nat}
    (opened : s.target path = .ok (place, old, mode)) : R s (s.putBytes place mode bytes) := by
  obtain ⟨spot, located, opened⟩ := of_bind_eq_ok opened
  have stands := stands_locate located
  cases spot with
  | found place' e =>
      cases e with
      | file bytes' mode' modified =>
          cases opened
          exact upkeep.alike stands trivial
      | folder mode' => cases opened
      | link target => cases opened
  | free place' =>
      cases opened
      exact upkeep.free stands (by simp)

theorem writeText (path : String) (text : Text.CodePoints) (encoding : Encoding) :
    (writeText path text encoding).Upholds R := by
  intro s
  rw [Store.writeText]
  split
  · exact upkeep.refl s
  · next opened =>
      obtain ⟨_, _, opened⟩ := of_bind_eq_ok opened
      split <;> exact upkeep.putBytes opened

theorem appendText (path : String) (text : Text.CodePoints) (encoding : Encoding) :
    (appendText path text encoding).Upholds R := by
  intro s
  rw [Store.appendText]
  split
  · exact upkeep.refl s
  · next opened =>
      obtain ⟨_, _, opened⟩ := of_bind_eq_ok opened
      split <;> exact upkeep.putBytes opened

/-! Copies. -/

theorem copyBytes (source destination : String) : (copyBytes source destination).Upholds R := by
  refine upkeep.ofExcept fun s t copied => ?_
  obtain ⟨bytes, _, copied⟩ := of_bind_eq_ok copied
  obtain ⟨⟨place, old, mode⟩, opened, copied⟩ := of_bind_eq_ok copied
  cases copied
  exact upkeep.putBytes opened

theorem copyFile (source destination : String) : (copyFile source destination).Upholds R := by
  intro s
  rw [Store.copyFile]
  split
  · exact upkeep.refl s
  · split
    · exact upkeep.refl s
    · exact upkeep.copyBytes source destination s

theorem copyStatus (source destination : String) : (copyStatus source destination).Upholds R := by
  refine upkeep.ofExcept fun s t copied => ?_
  obtain ⟨⟨place, e⟩, _, copied⟩ := of_bind_eq_ok copied
  obtain ⟨⟨place', e'⟩, ends, copied⟩ := of_bind_eq_ok copied
  have there := get?_of_stat ends
  cases e with
  | file bytes mode modified =>
      cases e' with
      | file bytes' mode' modified' =>
          cases copied
          exact upkeep.alike there trivial
      | folder mode' =>
          cases copied
          exact upkeep.refl s
      | link target =>
          cases copied
          exact upkeep.refl s
  | folder mode =>
      cases copied
      exact upkeep.trans (upkeep.alike there (Entry.alike_withMode mode e')) (upkeep.dated _ _ _)
  | link target =>
      cases copied
      exact upkeep.refl s

theorem copyMember (source name destination : String) :
    (copyMember source name destination).Upholds R := by
  intro s
  rw [Store.copyMember]
  generalize (if s.isFolder destination then joinName destination name else destination) = path
  split
  · exact upkeep.refl s
  · have copied := upkeep.copyBytes source path s
    split
    · next same =>
        rw [same] at copied
        exact upkeep.trans copied (upkeep.copyStatus source path _)
    · exact copied

section
variable {copyTree : String → String → Change} (tree : ∀ a b, (copyTree a b).Upholds R)
include tree

theorem memberChange (source name destination : String) :
    (memberChange copyTree source name destination).Upholds R := by
  intro s
  rw [Store.memberChange]
  split
  · exact tree _ _ s
  · exact upkeep.copyMember _ _ _ s
  · split
    · exact tree _ _ s
    · exact upkeep.copyMember _ _ _ s
    · exact upkeep.copyMember _ _ _ s
    · exact upkeep.refl s
  · exact upkeep.refl s

theorem copyMembers (source destination : String) (names : List String) :
    ∀ s : Store, R s (copyMembers copyTree source destination names s).2 := by
  induction names with
  | nil => exact upkeep.refl
  | cons name rest ih =>
      intro s
      have first := upkeep.memberChange tree (joinName source name) name (joinName destination name) s
      rw [Store.copyMembers]
      dsimp only
      split
      · next same =>
          rw [same] at first
          exact first
      · next same =>
          rw [same] at first
          exact upkeep.trans first (ih _)

end

theorem copyLevels (n : Nat) : ∀ source destination : String,
    (copyLevels n source destination).Upholds R := by
  induction n with
  | zero => exact fun source destination => upkeep.refl
  | succ n ih =>
      intro source destination s
      unfold Store.copyLevels
      dsimp only
      split
      · exact upkeep.refl s
      · next names listed =>
          have made := upkeep.ensureFolders s.nesting (pathsAbove destination) s
          split
          · next same =>
              rw [same] at made
              exact made
          · next t same =>
              rw [same] at made
              have members := upkeep.copyMembers ih source destination names t
              split
              · next same =>
                  rw [same] at members
                  exact upkeep.trans made members
              · next u same =>
                  rw [same] at members
                  have status := upkeep.copyStatus source destination u
                  have whole := upkeep.trans made (upkeep.trans members status)
                  split <;> split <;> exact whole

theorem copyTree (source destination : String) : (copyTree source destination).Upholds R := by
  intro s
  rw [Store.copyTree]
  split
  · exact upkeep.refl s
  · exact upkeep.copyLevels _ source destination s

end Upkeep

/-! All changes. -/

/-- What holds between a store and the one that any step makes of it, those of removals and moves
included. -/
structure Custody (R : Store → Store → Prop) : Prop extends Upkeep R where
  leaf : ∀ {s : Store} {p : Place} {e : Entry}, s.get? p = some e → (∀ mode, e ≠ .folder mode) →
    R s (s.erase p)
  tree : ∀ (s : Store) (p : Place), R s (s.eraseTree p)
  below : ∀ (s : Store) (p : Place), R s (s.eraseBelow p)
  moved : ∀ {s t : Store} {source destination : String},
    s.moveEntry source destination = .ok t → R s t

/-- Upholds, whether it succeeds or fails, whatever all changes do. -/
def Change.Safe (c : Change) : Prop := ∀ R : Store → Store → Prop, Custody R → c.Upholds R

namespace Custody

variable {R : Store → Store → Prop} (custody : Custody R)
include custody

theorem removeFile (path : String) : (removeFile path).Upholds R := by
  intro s
  rcases removed : Store.removeFile path s with ⟨f | _, t⟩
  · rw [Store.removeFile] at removed
    rw [unchanged_of_ofExcept removed]
    exact custody.refl s
  · obtain ⟨place, e, ends, leaf, rfl⟩ := of_removeFile removed
    exact custody.leaf (get?_of_stat ends) leaf

theorem eraseEach (place : Place) (names : List String) :
    ∀ s : Store, R s (names.foldl (fun s name => s.eraseTree (place ++ [name])) s) := by
  induction names with
  | nil => exact custody.refl
  | cons name rest ih => exact fun s => custody.trans (custody.tree s _) (ih _)

theorem removeUntil (n : Nat) : ∀ (place : Place) (s : Store), R s (removeUntil n place s) := by
  induction n with
  | zero => exact fun _ => custody.refl
  | succ n ih =>
      intro place s
      rw [Store.removeUntil]
      have before := custody.eraseEach place
        ((s.names place).span fun name => !s.isHigher (place ++ [name]) n).1 s
      dsimp only
      split
      · exact before
      · exact custody.trans before (ih _ _)

theorem removeTree (path : String) : (removeTree path).Upholds R := by
  intro s
  rw [Store.removeTree]
  split
  · exact custody.refl s
  · split <;> exact custody.refl s
  · exact custody.refl s
  · split
    · exact custody.removeUntil _ _ s
    · split
      · exact custody.below s _
      · exact custody.tree s _

theorem move (source destination : String) : (move source destination).Upholds R := by
  refine custody.ofExcept fun s t moved => ?_
  split at moved
  · cases moved
  · cases done : s.moveEntry source destination with
    | error f =>
        rw [done] at moved
        cases moved
    | ok t' =>
        rw [done] at moved
        cases moved
        exact custody.moved done

end Custody

/-! Moves. -/

/-- The parent of a path is a folder, and the last name of the path is one that an entry may have. -/
theorem of_parentOf {path : String} {folder : Place} {name : Option String}
    (parent : s.parentOf path = .ok (folder, name)) :
    (∃ mode, s.get? folder = some (.folder mode)) ∧ ∀ n, name = some n → Path.Clean n.toList := by
  rw [parentOf] at parent
  split at parent
  · cases parent
  split at parent
  · cases parent
  · cases parent
  · next place mode ends =>
      cases parent
      have parts : ∀ name ∈ (pathNames path.toList).dropLast, Part name :=
        fun name member => part_of_mem_pathNames (List.dropLast_subset _ member)
      refine ⟨⟨mode, stands_walk maxLinks parts ends⟩, fun n last => ?_⟩
      rw [Option.filter_eq_some_iff] at last
      obtain ⟨last, plain⟩ := last
      simp only [bne_iff_ne, ne_eq, Bool.and_eq_true] at plain
      exact (part_of_mem_pathNames (List.mem_of_mem_getLast? last)).clean plain.1 plain.2
  · cases parent

theorem of_child {folder : Place} {name : String} {there : Option Entry}
    (child : s.child folder name = .ok (place, there)) :
    name.utf8ByteSize ≤ maxName ∧ place = folder ++ [name] ∧ there = s.get? place := by
  rw [Store.child] at child
  split at child
  · cases child
  · next short =>
      cases child
      exact ⟨Nat.le_of_not_lt short, rfl, rfl⟩

theorem Sound.bare_of_mayReplace (sound : s.Sound) {e : Entry}
    (may : s.mayReplace e place = .ok ()) (name : String) : s.get? (place ++ [name]) = none := by
  cases found : s.get? place with
  | none => exact sound.none_below_none found (List.prefix_append _ _)
  | some e' =>
      unfold mayReplace at may
      rw [found] at may
      have leaf (other : ∀ mode, e' ≠ .folder mode) : s.get? (place ++ [name]) = none :=
        sound.none_below found other (List.prefix_append _ _) (by simp)
      cases e' with
      | file bytes mode modified => exact leaf (by simp)
      | link target => exact leaf (by simp)
      | folder mode =>
          cases e with
          | folder mode' =>
              dsimp only at may
              split at may
              · next empty =>
                  rw [List.isEmpty_iff] at empty
                  cases below : s.get? (place ++ [name]) with
                  | none => rfl
                  | some e'' =>
                      have listed := mem_names.mpr ⟨e'', below⟩
                      rw [empty] at listed
                      cases listed
              · cases may
          | file bytes mode' modified => cases may
          | link target => cases may

/-- A move leaves all as it is, or takes the entry at a name to another one, in the stead of what
stands there. Neither name is above the folder of the other. -/
structure Moves (s t : Store) (folder folder' : Place) (name name' : String) : Prop where
  short : name.utf8ByteSize ≤ maxName
  short' : name'.utf8ByteSize ≤ maxName
  outside : ¬ folder ++ [name] <+: folder'
  outside' : ¬ folder' ++ [name'] <+: folder
  done : ∃ e, s.get? (folder ++ [name]) = some e ∧
    (folder ++ [name] = folder' ++ [name'] ∧ t = s ∨
      folder ++ [name] ≠ folder' ++ [name'] ∧ s.mayReplace e (folder' ++ [name']) = .ok () ∧
        t = (s.erase (folder' ++ [name'])).moveTree (folder ++ [name]) (folder' ++ [name']))

theorem of_moveEntry {source destination : String} (moved : s.moveEntry source destination = .ok t) :
    ∃ folder folder' name name', s.parentOf source = .ok (folder, some name) ∧
      s.parentOf destination = .ok (folder', some name') ∧ Moves s t folder folder' name name' := by
  rw [Store.moveEntry] at moved
  obtain ⟨⟨folder, own⟩, parent, moved⟩ := of_bind_eq_ok moved
  obtain ⟨⟨folder', own'⟩, parent', moved⟩ := of_bind_eq_ok moved
  cases own with
  | none => cases moved
  | some name =>
  cases own' with
  | none => cases moved
  | some name' =>
  obtain ⟨⟨place, there⟩, child, moved⟩ := of_bind_eq_ok moved
  obtain ⟨short, rfl, rfl⟩ := of_child child
  cases found : s.get? (folder ++ [name]) with
  | none =>
      rw [found] at moved
      cases moved
  | some e =>
      rw [found] at moved
      obtain ⟨⟨place', there'⟩, child', moved⟩ := of_bind_eq_ok moved
      obtain ⟨short', rfl, _⟩ := of_child child'
      dsimp only at moved
      split at moved
      · cases moved
      next outside =>
      split at moved
      · cases moved
      next outside' =>
      rw [List.isPrefixOf_iff_prefix] at outside outside'
      refine ⟨folder, folder', name, name', parent, parent', short, short', outside, outside', e, found, ?_⟩
      split at moved
      · next same =>
          cases moved
          exact .inl ⟨same, rfl⟩
      · next other =>
          obtain ⟨_, may, moved⟩ := of_bind_eq_ok moved
          cases moved
          exact .inr ⟨other, may, rfl⟩

theorem Sound.moveEntry (sound : s.Sound) {source destination : String}
    (moved : s.moveEntry source destination = .ok t) : t.Sound := by
  obtain ⟨folder, folder', name, name', _, parent', moves⟩ := of_moveEntry moved
  obtain ⟨⟨mode, inFolder⟩, clean⟩ := of_parentOf parent'
  obtain ⟨e, _, ⟨_, rfl⟩ | ⟨other, may, rfl⟩⟩ := moves.done
  · exact sound
  · refine (sound.erase (sound.bare_of_mayReplace may)).moveTree
      ⟨?_, folder', name', mode, rfl, ?_, clean name' rfl⟩ (fun below => ?_)
    · rw [get?_erase, if_pos rfl]
    · rw [get?_erase, if_neg (by simp), inFolder]
    · rcases List.prefix_concat_iff.mp below with same | below
      · exact other same
      · exact moves.outside below

/-! Sound stores. -/

abbrev SoundStays (s t : Store) : Prop := s.Sound → t.Sound

theorem upkeep_sound : Upkeep SoundStays where
  refl _ sound := sound
  trans first second sound := second (first sound)
  free free _ sound := sound.put_free free
  alike found alike sound := sound.put_alike found alike
  dated _ _ _ sound := ⟨sound.named, sound.housed⟩

theorem custody_sound : Custody SoundStays where
  toUpkeep := upkeep_sound
  leaf found leaf sound := sound.erase fun _ =>
    sound.none_below found leaf (List.prefix_append _ _) (by simp)
  tree _ _ sound := sound.eraseTree
  below _ _ sound := sound.eraseBelow
  moved done sound := sound.moveEntry done

end FileQuery.Store
