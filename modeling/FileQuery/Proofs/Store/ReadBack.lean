import FileQuery.Proofs.Store.Sound
import FileQuery.Proofs.Store.Writing

/-! What was written is read back under the same path. A path whose end is opened for writing leads
through folders and links only, and never through the place at its end, so it leads to the new file. -/
set_option autoImplicit false
namespace FileQuery.Store

def Spot.place : Spot → Place
  | .found place _ => place
  | .free place => place

/-- Nothing, or a file: what a path does not lead through. -/
def Leaf (s : Store) (place : Place) : Prop :=
  ∀ e, s.get? place = some e → ∃ bytes mode modified, e = .file bytes mode modified

variable {s t : Store} {place : Place} {bytes old : ByteArray} {mode : Nat} {path : String}
  {encoding : Encoding}

section Put
variable {follow : Bool} {entry : Entry}

theorem Leaf.ne_of_folder (leaf : s.Leaf place) {p : Place}
    (folder : s.get? p = some (.folder mode)) : p ≠ place := by
  rintro rfl
  obtain ⟨_, _, _, same⟩ := leaf _ folder
  cases same

theorem Leaf.ne_of_link (leaf : s.Leaf place) {p : Place} {target : String}
    (link : s.get? p = some (.link target)) : p ≠ place := by
  rintro rfl
  obtain ⟨_, _, _, same⟩ := leaf _ link
  cases same

theorem enter_put_here (onLink : Place → List String → Except Errno Spot) :
    enter (s.put place entry) true onLink place [] = .ok (.found place entry) := by
  rw [enter, get?_put, if_pos rfl]

theorem enter_put (leaf : s.Leaf place) (noLink : ∀ target, entry ≠ .link target)
    {onLink onLink' : Place → List String → Except Errno Spot}
    (jumps : ∀ here names spot, onLink here names = .ok spot → spot.place = place →
      onLink' here names = .ok (.found place entry)) (names : List String) :
    ∀ {here : Place} {spot : Spot}, enter s follow onLink here names = .ok spot → spot.place = place →
      enter (s.put place entry) true onLink' here names = .ok (.found place entry) := by
  -- over the names: every entry before the last is a folder or a link, so not the one that is put
  induction names with
  | nil =>
      intro here spot ends last
      rw [enter] at ends
      split at ends
      · cases ends
        obtain rfl : here = place := last
        exact enter_put_here onLink'
      · cases ends
  | cons name rest ih =>
      intro here spot ends last
      rw [enter] at ends
      split at ends
      · cases ends
      · next folder =>
          rw [enter, get?_put, if_neg (leaf.ne_of_folder folder), folder]
          dsimp only
          split at ends
          · next dot => rw [if_pos dot]; exact ih ends last
          next noDot =>
          split at ends
          · next dots => rw [if_neg noDot, if_pos dots]; exact ih ends last
          next noDots =>
          split at ends
          · cases ends
          next short =>
          rw [if_neg noDot, if_neg noDots, if_neg short]
          dsimp only at ends
          split at ends
          · -- a new entry
            split at ends
            · next final =>
                cases ends
                obtain rfl : here ++ [name] = place := last
                obtain rfl : rest = [] := List.isEmpty_iff.mp final
                rw [get?_put, if_pos rfl]
                cases entry with
                | link target => exact absurd rfl (noLink target)
                | folder mode => exact enter_put_here onLink'
                | file bytes mode modified => exact enter_put_here onLink'
            · cases ends
          · next target link =>
              have other := leaf.ne_of_link link
              rw [get?_put, if_neg other, link]
              split at ends
              · cases ends
                exact absurd last other
              · simp only [Bool.not_true, Bool.and_false, Bool.false_eq_true, if_false]
                exact jumps _ _ _ ends last
          · next e noLink' there =>
              have goesOn := ih ends last
              by_cases own : here ++ [name] = place
              · rw [get?_put, if_pos own]
                cases entry with
                | link target => exact absurd rfl (noLink target)
                | folder mode => exact goesOn
                | file bytes mode modified => exact goesOn
              · rw [get?_put, if_neg own, there]
                cases e with
                | link target => exact absurd rfl (noLink' target)
                | folder mode => exact goesOn
                | file bytes mode modified => exact goesOn
      · cases ends

theorem walk_put (leaf : s.Leaf place) (noLink : ∀ target, entry ≠ .link target) (k : Nat) :
    ∀ {here : Place} {names : List String} {spot : Spot}, walk s follow k here names = .ok spot →
      spot.place = place → walk (s.put place entry) true k here names = .ok (.found place entry) := by
  induction k with
  | zero => exact enter_put leaf noLink (fun _ _ _ found => by cases found) _
  | succ k ih => exact enter_put leaf noLink (fun _ _ _ found last => ih found last) _

/-- A path that ends at a free name or at a file leads to what is put there, if it is no link. -/
theorem stat_put (leaf : s.Leaf place) (noLink : ∀ target, entry ≠ .link target) {spot : Spot}
    (ends : s.locate follow path = .ok spot) (last : spot.place = place) :
    (s.put place entry).stat true path = .ok (place, entry) := by
  obtain ⟨plain, some, short, ends⟩ := locate_eq_ok_iff.mp ends
  exact stat_eq_ok_iff.mpr ⟨plain, some, short, walk_put leaf noLink maxLinks ends last⟩

theorem leaf_of_free (free : (Spot.free place).Stands s) : s.Leaf place := by
  intro e found
  rw [free.1] at found
  cases found

end Put

theorem of_target (opens : s.target path = .ok (place, old, mode)) :
    s.Leaf place ∧ ∃ spot, s.locate true path = .ok spot ∧ spot.place = place := by
  obtain ⟨spot, located, opens⟩ := of_bind_eq_ok opens
  have stands := stands_locate located
  cases spot with
  | free vacant =>
      cases opens
      exact ⟨leaf_of_free stands, _, located, rfl⟩
  | found p e =>
      cases e with
      | folder mode' => cases opens
      | link target => cases opens
      | file bytes' mode' modified =>
          cases opens
          refine ⟨fun e found => ?_, _, located, rfl⟩
          have own : s.get? place = some (.file old mode modified) := stands
          rw [own] at found
          exact ⟨_, _, _, (Option.some.inj found).symm⟩

/-- What is put into the file that was opened under a path is read back from there. -/
theorem bytesAt_putBytes (opens : s.target path = .ok (place, old, mode)) :
    (s.putBytes place mode bytes).bytesAt path = .ok bytes := by
  obtain ⟨leaf, spot, located, last⟩ := of_target opens
  rw [bytesAt, putBytes, stat_put leaf (by simp) located last]
  rfl

/-- A text that was written is what its file holds, behind what was kept of it. -/
theorem Writing.bytesAt_of_done {x : Writing} (done : x.change encoding s = (.ok (), t)) :
    ∃ place old mode bytes, s.target x.path = .ok (place, old, mode) ∧
      x.encoded encoding old = .ok bytes ∧ t = s.putBytes place mode (x.kept old ++ bytes) ∧
      t.bytesAt x.path = .ok (x.kept old ++ bytes) := by
  rcases opens : s.opened x.path encoding with f | ⟨place, old, mode⟩
  · rw [change_of_not_opened opens] at done
    cases done
  · cases encodes : x.encoded encoding old with
    | error f =>
        rw [change_of_not_encoded opens encodes] at done
        cases done
    | ok bytes =>
        rw [change_of_encoded opens encodes] at done
        cases done
        have file := target_of_opened opens
        exact ⟨place, old, mode, bytes, file, encodes, rfl, bytesAt_putBytes file⟩

theorem encodeText_ofString (atStart : Bool) (text : String) :
    encodeText .utf8 atStart (Text.CodePoints.ofString text) = .ok text.toUTF8 := by
  have body : Codec.utf8.encodeBody (Text.CodePoints.ofString text) = .ok text.toUTF8 :=
    Codec.encodeUtf8_ofString text
  have none : Codec.utf8.mark.toByteArray ++ text.toUTF8 = text.toUTF8 := ByteArray.empty_append
  simp only [encodeText, Encoding.utf8, Codec.encode, body, Except.map, Except.mapError, none,
    ite_self]

theorem writeText_of_opened (opens : s.opened path .utf8 = .ok (place, old, mode)) (text : String) :
    writeText path (Text.CodePoints.ofString text) .utf8 s =
      (.ok (), s.putBytes place mode text.toUTF8) := by
  rw [opened] at opens
  rw [writeText, opens]
  simp only [encodeText_ofString]

/-- Where a text of names is written, each of its characters stands for itself. -/
theorem decoded_of_writeText {u : Store} {text : String}
    (done : writeText path (u.pointsOf text) .utf8 s = (.ok (), t)) :
    ∀ c ∈ text.toList, c ∉ u.undecoded := by
  intro c member undecoded
  let x : Writing := ⟨path, u.pointsOf text, false⟩
  obtain ⟨_, _, _, bytes, _, encoded, _⟩ := x.bytesAt_of_done done
  obtain ⟨f, stopped, _⟩ := (stray_encodeText true).mpr
    (surrogate_pointsOf.mpr ⟨c, member, undecoded⟩)
  exact absurd (encoded.symm.trans stopped) (by simp)

theorem bytesAt_of_writeText {text : String}
    (done : writeText path (Text.CodePoints.ofString text) .utf8 s = (.ok (), t)) :
    t.bytesAt path = .ok text.toUTF8 := by
  let x : Writing := ⟨path, Text.CodePoints.ofString text, false⟩
  obtain ⟨_, old, _, bytes, _, encoded, _, back⟩ := x.bytesAt_of_done done
  have same : x.encoded .utf8 old = .ok text.toUTF8 := encodeText_ofString true text
  rw [same, Except.ok.injEq] at encoded
  rw [← encoded] at back
  exact back.trans (by rw [Writing.kept, if_neg Bool.false_ne_true, ByteArray.empty_append])

end FileQuery.Store
