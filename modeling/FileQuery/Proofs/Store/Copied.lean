import FileQuery.Proofs.Store.Folders
import FileQuery.Proofs.Store.Members

/-! What copies hold. A copied file has the bytes of its source. A tree that is copied to where neither
links nor what is copied stand, nor folders where files go, changes nothing but its own place and what
is below it, and every path below it leads to what the same path below the source does
(`mirrored_copyTree`). -/
set_option autoImplicit false
namespace FileQuery

/-- Files with the same bytes; folders; links with one target. -/
def Entry.SameContent : Entry → Entry → Prop
  | .folder _, .folder _ => True
  | .file bytes _ _, .file bytes' _ _ => bytes = bytes'
  | .link target, .link target' => target = target'
  | _, _ => False

namespace Store

open Path (Canonical Clean)

variable {s t u v : Store} {source destination folder name : String} {place p q : Place} {e : Entry}

/-! ## Files -/

theorem bytesAt_of_stat {bytes : ByteArray} {mode : Nat} {modified : Instant}
    (ends : s.stat true source = .ok (q, .file bytes mode modified)) : s.bytesAt source = .ok bytes := by
  rw [bytesAt, ends]
  rfl

theorem of_bytesAt {bytes : ByteArray} (read : s.bytesAt source = .ok bytes) :
    ∃ p mode modified, s.stat true source = .ok (p, .file bytes mode modified) := by
  obtain ⟨⟨p, e⟩, ends, read⟩ := of_bind_eq_ok read
  cases e with
  | file bytes' mode modified =>
      cases read
      exact ⟨p, mode, modified, ends⟩
  | folder mode => cases read
  | link target => cases read

theorem bytesAt_of_copyFile (copied : copyFile source destination s = (.ok (), t)) :
    ∃ bytes, s.bytesAt source = .ok bytes ∧ t.bytesAt destination = .ok bytes ∧
      t.bytesAt source = .ok bytes := by
  have further := (upkeep_extends.copyFile source destination).of_done copied
  rw [copyFile] at copied
  split at copied
  · cases copied
  split at copied
  · cases copied
  next other =>
  obtain ⟨bytes, read, done⟩ := of_bind_eq_ok (of_ofExcept copied)
  obtain ⟨⟨place, old, mode⟩, opens, done⟩ := of_bind_eq_ok done
  cases done
  refine ⟨bytes, read, bytesAt_putBytes opens, ?_⟩
  obtain ⟨p, mode', modified, ends⟩ := of_bytesAt read
  have there := get?_of_stat ends
  -- what is opened is another file, or was not there
  have apart : p ≠ place := by
    rintro rfl
    obtain ⟨_, spot, located, rfl⟩ := of_target opens
    cases spot with
    | free q =>
        have vacant := (stands_locate located).1
        rw [Spot.place, vacant] at there
        cases there
    | found q e =>
        rw [sameEntry, ends, stat_eq_ok_iff_locate.mpr located] at other
        exact other (beq_self_eq_true q)
  obtain ⟨e, ends', _⟩ := further.keeps.stat ends
  have found := get?_of_stat ends'
  rw [putBytes, get?_put, if_neg apart, there, Option.some.injEq] at found
  exact bytesAt_of_stat (found ▸ ends')

/-! ## Growth -/

/-- A folder at the end of a path, with no link in it. -/
structure Room (s : Store) (path : String) (place : Place) : Prop where
  canonical : Canonical path.toList
  leads : ∃ mode, s.stat true path = .ok (place, .folder mode)
  linkless : s.Linkless place

theorem Room.site (room : Room s folder place) (clean : Clean name.toList) : Site s folder name place :=
  ⟨room.canonical, clean, room.leads, room.linkless.below (List.prefix_append _ _)⟩

theorem Room.extends' (room : Room s folder place) (further : Extends s t) : Room t folder place := by
  obtain ⟨mode, ends⟩ := room.leads
  exact ⟨room.canonical, further.keeps.stat_folder ends, further.linkless room.linkless⟩

theorem Site.room (site : Site s folder name place)
    (made : Store.ensureFolder (joinName folder name) s = (.ok (), t)) :
    Grows (· = place ++ [name]) s t ∧ Room t (joinName folder name) (place ++ [name]) := by
  obtain ⟨grows, leads⟩ := site.ensureFolder made
  exact ⟨grows, canonical_joinName site.canonical site.clean, leads,
    grows.linkless site.linkless⟩

theorem Site.of_ensureFolders {n : Nat} (site : Site s folder name place)
    (made : Store.ensureFolders n (pathsAbove (joinName folder name)) s = (.ok (), t)) :
    Store.ensureFolder (joinName folder name) s = (.ok (), t) := by
  obtain ⟨mode, ends⟩ := site.inFolder
  have present : s.isPresent folder = true := by rw [isPresent, ends]; rfl
  cases n with
  | zero => cases made
  | succ n => rwa [ensureFolders_joinName site.canonical site.clean, if_pos present] at made

theorem Room.copyStatus (room : Room s folder place)
    (copied : Store.copyStatus source folder s = (.ok (), t)) : Grows (· = place) s t := by
  have further := (upkeep_extends.copyStatus source folder).of_done copied
  obtain ⟨mode, ends⟩ := room.leads
  obtain ⟨⟨_, e⟩, _, done⟩ := of_bind_eq_ok (of_ofExcept copied)
  obtain ⟨⟨_, e'⟩, ends', done⟩ := of_bind_eq_ok done
  rw [ends] at ends'
  cases ends'
  refine ⟨further, fun q other => ?_⟩
  cases e with
  | folder mode' =>
      cases done
      rw [get?_setTimes, get?_put, if_neg other]
  | file bytes mode' modified => cases done; rfl
  | link target => cases done; rfl

/-- A file that meets a folder goes into it, so it is copied at or below its place all the same. -/
theorem Site.copyMember (site : Site s folder name place)
    (copied : Store.copyMember source name (joinName folder name) s = (.ok (), t)) :
    Grows (place ++ [name] <+: ·) s t := by
  obtain ⟨path, u, same, bytes, status⟩ := of_copyMember copied
  split at same
  · next isFolder =>
      subst same
      refine ((site.below isFolder site.clean).copied bytes status).1.mono ?_
      rintro q rfl
      exact List.prefix_append _ _
  · subst same
    refine (site.copied bytes status).1.mono ?_
    rintro q rfl
    exact List.prefix_refl _

/-- Whether trees are copied at or below their places. -/
def Contained (copyTree : String → String → Change) : Prop :=
  ∀ source folder name place s t, s.Sound → Site s folder name place →
    copyTree source (joinName folder name) s = (.ok (), t) → Grows (place ++ [name] <+: ·) s t

theorem Site.memberChange {copyTree : String → String → Change} (contained : Contained copyTree)
    (sound : s.Sound) (site : Site s folder name place)
    (copied : Store.memberChange copyTree source name (joinName folder name) s = (.ok (), t)) :
    Grows (place ++ [name] <+: ·) s t := by
  rcases of_memberChange copied with tree | member
  · exact contained source folder name place s t sound site tree
  · exact site.copyMember member

theorem grows_copyMembers {k : Nat} (contained : Contained (copyLevels k)) {names : List String} :
    ∀ {s}, s.Sound → Room s destination place → (∀ n ∈ names, Clean n.toList) →
      copyMembers (copyLevels k) source destination names s = (.ok [], t) →
      Grows (fun q => ∃ n ∈ names, place ++ [n] <+: q) s t := by
  induction names with
  | nil =>
      intro s sound room clean copied
      cases copied
      exact .refl _ _
  | cons name names ih =>
      intro s sound room clean copied
      obtain ⟨u, member, others⟩ := of_copyMembers (tells_copyLevels k) copied
      have first := (room.site (clean name (by simp))).memberChange contained sound member
      have sound' := (upkeep_sound.memberChange (upkeep_sound.copyLevels k) _ _ _).of_done member sound
      have later := ih sound' (room.extends' first.toExtends)
        (fun n listed => clean n (by simp [listed])) others
      refine (first.mono fun q below => ⟨name, by simp, below⟩).trans (later.mono ?_)
      rintro q ⟨n, listed, below⟩
      exact ⟨n, by simp [listed], below⟩

theorem clean_of_namesAt (sound : s.Sound) {names : List String} (listed : s.namesAt source = .ok names) :
    ∀ n ∈ names, Clean n.toList := by
  obtain ⟨p, mode, _, rfl⟩ := of_namesAt listed
  intro n member
  obtain ⟨e, found⟩ := mem_names.mp member
  exact sound.named p n e found

theorem contained_copyLevels (n : Nat) : Contained (copyLevels n) := by
  induction n with
  | zero => exact fun source folder name place s t _ _ copied => by cases copied
  | succ n ih =>
      intro source folder name place s t sound site copied
      obtain ⟨k, names, u, v, same, listed, made, members, status⟩ := of_copyLevels copied
      obtain rfl := Nat.succ.inj same
      have made := site.of_ensureFolders made
      obtain ⟨first, room⟩ := site.room made
      have sound' := (upkeep_sound.ensureFolder _).of_done made sound
      have second := grows_copyMembers ih sound' room (clean_of_namesAt sound listed) members
      have third := (room.extends' second.toExtends).copyStatus status
      refine (first.mono ?_).trans ((second.mono ?_).trans (third.mono ?_))
      · rintro q rfl
        exact List.prefix_refl _
      · rintro q ⟨m, _, below⟩
        exact (List.prefix_append _ _).trans below
      · rintro q rfl
        exact List.prefix_refl _

/-! ## Content -/

/-- The path of names that stand one in the other. -/
def descend (path : String) (names : List String) : String := names.foldl joinName path

def CleanNames (names : List String) : Prop := ∀ n ∈ names, Clean n.toList

theorem cleanNames_cons {names : List String} :
    CleanNames (name :: names) ↔ Clean name.toList ∧ CleanNames names := List.forall_mem_cons

theorem stat_of_stat_descend {r : List String} (canonical : Canonical source.toList) (clean : CleanNames r)
    (ends : s.stat true (descend source r) = .ok (q, e)) :
    (∃ q' e', s.stat true source = .ok (q', e')) ∧
      (r ≠ [] → ∃ q' mode, s.stat true source = .ok (q', .folder mode)) := by
  induction r generalizing source with
  | nil => exact ⟨⟨q, e, ends⟩, fun some => absurd rfl some⟩
  | cons n r ih =>
      rw [cleanNames_cons] at clean
      obtain ⟨⟨q', e', below⟩, _⟩ := ih (canonical_joinName canonical clean.1) clean.2 ends
      obtain ⟨q'', mode, folder⟩ :=
        folder_of_locate_joinName canonical clean.1 (stat_eq_ok_iff_locate.mp below)
      exact ⟨⟨q'', _, folder⟩, fun _ => ⟨q'', mode, folder⟩⟩

/-- No path below a source leads to a place or below it. -/
def Outside (s : Store) (source : String) (p : Place) : Prop :=
  ∀ r q e, CleanNames r → s.stat true (descend source r) = .ok (q, e) → ¬ p <+: q

/-- No folder stands below a place where a file stands below a source. -/
def Clear (s : Store) (source : String) (t : Store) (p : Place) : Prop :=
  ∀ r q bytes mode modified, CleanNames r →
    s.stat true (descend source r) = .ok (q, .file bytes mode modified) →
    ∀ mode', t.get? (p ++ r) ≠ some (.folder mode')

/-- Every path below a source leads to what stands below a place, and there leads the same path below
the destination. -/
def Mirrored (s : Store) (source : String) (t : Store) (destination : String) (p : Place) : Prop :=
  ∀ r q e, CleanNames r → s.stat true (descend source r) = .ok (q, e) →
    ∃ e', t.stat true (descend destination r) = .ok (p ++ r, e') ∧ e.SameContent e'

theorem Outside.child (outside : Outside s source p) (clean : Clean name.toList) :
    Outside s (joinName source name) p :=
  fun r q e names ends => outside (name :: r) q e (cleanNames_cons.mpr ⟨clean, names⟩) ends

theorem Clear.child (clear : Clear s source t p) (clean : Clean name.toList) :
    Clear s (joinName source name) t (p ++ [name]) := by
  intro r q bytes mode modified names ends mode'
  rw [List.append_assoc, List.singleton_append]
  exact clear (name :: r) q bytes mode modified (cleanNames_cons.mpr ⟨clean, names⟩) ends mode'

/-- A store that keeps another and is the same outside of a place. -/
structure Spares (p : Place) (s t : Store) : Prop where
  keeps : Keeps s t
  same : ∀ q e, ¬ p <+: q → s.get? q = some e → t.get? q = some e

theorem Spares.stat {path : String} (spares : Spares p s t) (ends : s.stat true path = .ok (q, e))
    (outside : ¬ p <+: q) : t.stat true path = .ok (q, e) := by
  obtain ⟨e', ends', _⟩ := spares.keeps.stat ends
  have found := get?_of_stat ends'
  rw [spares.same q e outside (get?_of_stat ends), Option.some.injEq] at found
  rw [ends', found]

theorem Spares.grows (spares : Spares p s t) (grows : Grows (p <+: ·) t u) : Spares p s u := by
  refine ⟨spares.keeps.trans grows.keeps, fun q e outside found => ?_⟩
  rw [grows.away q outside, spares.same q e outside found]

theorem Outside.stat {r : List String} (outside : Outside s source p) (spares : Spares p s t)
    (clean : CleanNames r) (ends : s.stat true (descend source r) = .ok (q, e)) :
    t.stat true (descend source r) = .ok (q, e) :=
  spares.stat ends (outside r q e clean ends)

/-- Whether trees are copied with all that they hold. -/
def Faithful (s : Store) (p : Place) (copyTree : String → String → Change) : Prop :=
  ∀ source folder name place t u, Canonical source.toList → Outside s source p →
    p <+: place ++ [name] → Spares p s t → t.Sound → Site t folder name place →
    Clear s source t (place ++ [name]) → copyTree source (joinName folder name) t = (.ok (), u) →
    Mirrored s source u (joinName folder name) (place ++ [name])

section
variable {copyTree : String → String → Change} {top : Place}

theorem mirrored_memberChange (faithful : Faithful s top copyTree) (canonical : Canonical source.toList)
    (outside : Outside s source top) (within : top <+: place ++ [name]) (spares : Spares top s t)
    (sound : t.Sound) (site : Site t folder name place)
    (clear : Clear s (joinName source name) t (place ++ [name]))
    (copied : memberChange copyTree (joinName source name) name (joinName folder name) t = (.ok (), u)) :
    Mirrored s (joinName source name) u (joinName folder name) (place ++ [name]) := by
  have canonical' := canonical_joinName canonical site.clean
  have outside' := outside.child site.clean
  intro r q e clean ends
  obtain ⟨⟨q', e', below⟩, above⟩ := stat_of_stat_descend canonical' clean ends
  have seen : t.stat true (joinName source name) = .ok (q', e') :=
    outside'.stat (r := []) spares (by simp [CleanNames]) below
  obtain ⟨p, mode, inFolder⟩ :=
    folder_of_locate_joinName canonical site.clean (stat_eq_ok_iff_locate.mp seen)
  obtain ⟨own, _, leads⟩ := stat_joinName inFolder site.clean seen
  by_cases isFolder : ∃ mode, e' = .folder mode
  · obtain ⟨mode', rfl⟩ := isFolder
    rw [memberChange_of_folder leads seen] at copied
    exact faithful _ _ _ _ _ _ canonical' outside' within spares sound site clear copied r q e clean ends
  · rw [memberChange_of_other leads seen fun mode same => isFolder ⟨mode, same⟩] at copied
    -- nothing is below a file
    have last : r = [] := by
      by_contra more
      obtain ⟨_, mode', folder⟩ := above more
      rw [below] at folder
      cases folder
      exact isFolder ⟨mode', rfl⟩
    subst last
    obtain ⟨path, v, same, bytes, status⟩ := of_copyMember copied
    cases e' with
    | folder mode' => exact absurd ⟨mode', rfl⟩ isFolder
    | link target =>
        obtain ⟨b, read, _⟩ := of_bind_eq_ok (of_ofExcept bytes)
        rw [bytesAt, seen] at read
        cases read
    | file b mode' modified =>
        have noFolder : t.isFolder (joinName folder name) = false := by
          rw [← Bool.not_eq_true]
          intro isFolder'
          obtain ⟨_, mode'', ends'⟩ := of_isFolder isFolder'
          have there := (site.stat ends').2
          have free := clear [] q' b mode' modified (by simp [CleanNames]) below mode''
          rw [List.append_nil] at free
          exact free there
        rw [noFolder, if_neg (by simp)] at same
        subst same
        obtain ⟨_, b', mode'', modified'', read, written⟩ := site.copied bytes status
        rw [bytesAt_of_stat seen, Except.ok.injEq] at read
        subst read
        have same : s.stat true (joinName source name) = .ok (q, e) := ends
        rw [below] at same
        cases same
        exact ⟨.file b mode'' modified'', by rw [List.append_nil]; exact written, rfl⟩

end

theorem Mirrored.grows {within : Place → Prop} (mirrored : Mirrored s source t destination p)
    (grows : Grows within t u) (away : ∀ q, p <+: q → ¬ within q) :
    Mirrored s source u destination p := by
  intro r q e clean ends
  obtain ⟨e', ends', same⟩ := mirrored r q e clean ends
  exact ⟨e', grows.stat ends' (away _ (List.prefix_append _ _)), same⟩

theorem same_child {m n : String} (one : p ++ [m] <+: q) (other : p ++ [n] <+: q) : m = n := by
  have both := List.prefix_of_prefix_length_le one other (by simp)
  have same := both.eq_of_length (by simp)
  simpa using same

section
variable {top : Place} {k : Nat} {mode : Nat}

theorem mirrored_copyMembers (faithful : Faithful s top (copyLevels k))
    (canonical : Canonical source.toList) (outside : Outside s source top)
    (isFolder : s.stat true source = .ok (q, .folder mode)) (within : top <+: place)
    {names : List String} :
    ∀ {t}, Spares top s t → t.Sound → Room t destination place → (∀ n ∈ names, Clean n.toList) →
      Clear s source t place → copyMembers (copyLevels k) source destination names t = (.ok [], u) →
      ∀ n ∈ names, Mirrored s (joinName source n) u (joinName destination n) (place ++ [n]) := by
  induction names with
  | nil => simp
  | cons name names ih =>
      intro t spares sound room clean clear copied
      obtain ⟨v, member, others⟩ := of_copyMembers (tells_copyLevels k) copied
      have own := clean name (by simp)
      have clean' : ∀ n ∈ names, Clean n.toList := fun n listed => clean n (by simp [listed])
      have site := room.site own
      have below : top <+: place ++ [name] := within.trans (List.prefix_append _ _)
      have first := mirrored_memberChange faithful canonical outside below spares sound site
        (clear.child own) member
      have grows := site.memberChange (contained_copyLevels k) sound member
      have sound' := (upkeep_sound.memberChange (upkeep_sound.copyLevels k) _ _ _).of_done member sound
      have room' := room.extends' grows.toExtends
      have spares' := spares.grows (grows.mono fun q further => below.trans further)
      have clear' : Clear s source v place := by
        intro r q' bytes mode' modified names' ends mode'' found
        cases r with
        | nil =>
            have file : s.stat true source = .ok (q', .file bytes mode' modified) := ends
            rw [isFolder] at file
            cases file
        | cons m r =>
            by_cases same : m = name
            · subst same
              obtain ⟨e', ends', content⟩ := first r q' _ (cleanNames_cons.mp names').2 ends
              have there := get?_of_stat ends'
              rw [List.append_assoc, List.singleton_append, found, Option.some.injEq] at there
              subst there
              exact content
            · rw [grows.away] at found
              · exact clear (m :: r) q' bytes mode' modified names' ends mode'' found
              · intro inside
                have other : place ++ [m] <+: place ++ m :: r := by simp
                exact same (same_child other inside)
      have rest := ih spares' sound' room' clean' clear' others
      intro n listed
      by_cases again : n ∈ names
      · exact rest n again
      · obtain rfl : n = name := (List.mem_cons.mp listed).resolve_right again
        have later := grows_copyMembers (contained_copyLevels k) sound' room' clean' others
        refine first.grows later fun q inside => ?_
        rintro ⟨m, listed', inside'⟩
        obtain rfl := same_child inside inside'
        exact again listed'

theorem mirrored_of_members (faithful : Faithful s top (copyLevels k))
    (canonical : Canonical source.toList) (outside : Outside s source top)
    (isFolder : s.stat true source = .ok (q, .folder mode)) (within : top <+: place)
    {names : List String} (covers : ∀ n e, s.get? (q ++ [n]) = some e → n ∈ names)
    (spares : Spares top s t) (sound : t.Sound) (room : Room t destination place)
    (clean : ∀ n ∈ names, Clean n.toList) (clear : Clear s source t place)
    (members : copyMembers (copyLevels k) source destination names t = (.ok [], u))
    (status : Store.copyStatus source destination u = (.ok (), v)) :
    Mirrored s source v destination place := by
  have room' := room.extends' (grows_copyMembers (contained_copyLevels k) sound room clean members).toExtends
  have last := room'.copyStatus status
  intro r q' e names' ends
  cases r with
  | nil =>
      have same : s.stat true source = .ok (q', e) := ends
      rw [isFolder] at same
      cases same
      obtain ⟨mode', leads⟩ := (room'.extends' last.toExtends).leads
      exact ⟨.folder mode', by rw [List.append_nil]; exact leads, trivial⟩
  | cons n r =>
      rw [cleanNames_cons] at names'
      obtain ⟨⟨_, _, below⟩, _⟩ :=
        stat_of_stat_descend (canonical_joinName canonical names'.1) names'.2 ends
      obtain ⟨own, found, _⟩ := stat_joinName isFolder names'.1 below
      have mirrored := mirrored_copyMembers faithful canonical outside isFolder within spares sound room
        clean clear members n (covers n own found)
      have away : ∀ q, place ++ [n] <+: q → q ≠ place := by
        rintro q inside rfl
        exact not_below_self _ _ inside
      obtain ⟨e', ends', same⟩ := mirrored.grows last away r q' e names'.2 ends
      rw [List.append_assoc, List.singleton_append] at ends'
      exact ⟨e', ends', same⟩

end

theorem Clear.of_folder {mode : Nat} (clear : Clear s source t p)
    (isFolder : s.stat true source = .ok (q, .folder mode))
    (below : ∀ n r mode', u.get? (p ++ n :: r) = some (.folder mode') →
      t.get? (p ++ n :: r) = some (.folder mode')) : Clear s source u p := by
  intro r q' bytes mode' modified names ends mode'' found
  cases r with
  | nil =>
      have file : s.stat true source = .ok (q', .file bytes mode' modified) := ends
      rw [isFolder] at file
      cases file
  | cons n r => exact clear (n :: r) q' bytes mode' modified names ends mode'' (below n r mode'' found)

theorem covers_names (spares : Spares p s t) {n : String} (found : s.get? (q ++ [n]) = some e) :
    n ∈ t.names q := by
  obtain ⟨e', found', _⟩ := spares.keeps _ _ found
  exact mem_names.mpr ⟨e', found'⟩

theorem faithful_copyLevels {top : Place} (n : Nat) : Faithful s top (copyLevels n) := by
  induction n with
  | zero => exact fun source folder name place t u _ _ _ _ _ _ _ copied => by cases copied
  | succ n ih =>
      intro source folder name place t u canonical outside within spares sound site clear copied
      obtain ⟨k, names, v, w, same, listed, made, members, status⟩ := of_copyLevels copied
      obtain rfl := Nat.succ.inj same
      have clean := clean_of_namesAt sound listed
      obtain ⟨q, mode, isFolder, rfl⟩ := of_namesAt listed
      have made := site.of_ensureFolders made
      obtain ⟨first, room⟩ := site.room made
      have sound' := (upkeep_sound.ensureFolder _).of_done made sound
      intro r q' e names' ends
      obtain ⟨⟨q'', e', below⟩, _⟩ := stat_of_stat_descend canonical names' ends
      have seen := outside.stat (r := []) spares (by simp [CleanNames]) below
      have same : t.stat true source = .ok (q'', e') := seen
      rw [isFolder] at same
      cases same
      have spares' := spares.grows (first.mono (by rintro _ rfl; exact within))
      have clear' := clear.of_folder (u := v) below fun m r mode' found => by
        rwa [first.away _ (by simp)] at found
      exact mirrored_of_members ih canonical outside below within (fun m e => covers_names spares)
        spares' sound' room clean clear' members status r q' e names' ends

/-! ## Whole trees -/

/-- Whether nothing is in the way of a copy to a place: no link, nothing that is copied, and no folder
where a file goes. -/
structure Open (s : Store) (source : String) (place : Place) : Prop where
  linkless : s.Linkless place
  outside : Outside s source place
  clear : Clear s source s place

theorem Sound.open_of_vacant (sound : s.Sound) (vacant : s.get? place = none) : Open s source place := by
  have none (p : Place) (below : place <+: p) : s.get? p = .none := sound.none_below_none vacant below
  refine ⟨fun p target below link => ?_, fun r q e _ ends below => ?_,
    fun r q bytes mode modified _ _ mode' found => ?_⟩
  · rw [none p below] at link
    cases link
  · have found := get?_of_stat ends
    rw [none q below] at found
    cases found
  · rw [none _ (List.prefix_append _ _)] at found
    cases found

theorem keeps_of_copyTree (copied : copyTree source destination s = (.ok (), t)) : Keeps s t :=
  ((upkeep_extends.copyTree source destination).of_done copied).keeps

/-- A tree that is copied without a failure is there, and where nothing is in its way it holds all
that the source does. -/
theorem mirrored_copyTree (sound : s.Sound) (canonical : Canonical source.toList)
    (canonical' : Canonical destination.toList)
    (copied : copyTree source destination s = (.ok (), t)) :
    ∃ place mode, t.stat true destination = .ok (place, .folder mode) ∧
      (Open s source place → Mirrored s source t destination place) := by
  rw [copyTree] at copied
  split at copied
  · cases copied
  obtain ⟨k, names, u, v, _, listed, made, members, status⟩ := of_copyLevels copied
  obtain ⟨place, ⟨mode, leads⟩, furnished, _⟩ := (ensured sound canonical' _).1 u made
  have clean := clean_of_namesAt sound listed
  obtain ⟨q, mode', isFolder, rfl⟩ := of_namesAt listed
  have sound' := (upkeep_sound.ensureFolders _ _).of_done made sound
  have first := upkeep_extends.copyMembers (upkeep_extends.copyLevels k) source destination (s.names q) u
  have second := (upkeep_extends.copyStatus source destination).of_done status
  rw [members] at first
  obtain ⟨mode'', leads'⟩ := (first.keeps.trans second.keeps).stat_folder leads
  refine ⟨place, mode'', leads', fun ready => ?_⟩
  have spares : Spares place s u := by
    refine ⟨fun p e found => ⟨e, furnished.kept p e found, .refl e⟩, fun p e _ found => ?_⟩
    exact furnished.kept p e found
  have room : Room u destination place := by
    refine ⟨canonical', ⟨mode, leads⟩, fun p target below link => ?_⟩
    rcases furnished.made p _ link with old | ⟨_, _, made⟩
    · exact ready.linkless p target below old
    · cases made
  have clear : Clear s source u place := ready.clear.of_folder isFolder fun n r mode found => by
    rcases furnished.made _ _ found with old | ⟨above, _⟩
    · exact old
    · have size := above.length_le
      rw [List.length_append, List.length_cons] at size
      omega
  exact mirrored_of_members (faithful_copyLevels k) canonical ready.outside isFolder (List.prefix_refl _)
    (fun n e found => mem_names.mpr ⟨e, found⟩) spares sound' room clean clear members status

end Store

end FileQuery
