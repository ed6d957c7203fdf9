import FileQuery.Proofs.Store.Entries

/-! Every change leaves a sound store sound, also one that fails half way. An entry is only put where
another of its kind stands or at a free name in a folder, only what has nothing below it is erased
alone, and a tree is moved to where nothing stands. -/
set_option autoImplicit false
namespace FileQuery.Store

variable {s t : Store} {p p' q : Place} {e : Entry}

/-! Where paths end. -/

structure Part (name : String) : Prop where
  nonempty : name.toList ≠ []
  slashless : '/' ∉ name.toList

/-- Ends in a store at an entry that is there, or at a free name in a folder that an entry may
have. -/
def Spot.Stands (s : Store) : Spot → Prop
  | .found place e => s.get? place = some e
  | .free place => s.get? place = none ∧ ∃ folder name mode, place = folder ++ [name] ∧
      s.get? folder = some (.folder mode) ∧ Path.Clean name.toList

theorem part_of_mem_pathNames {path : List Char} {name : String} (member : name ∈ pathNames path) :
    Part name := by
  obtain ⟨dots, parts, ends⟩ := pathNames_eq path
  rw [parts, List.mem_append] at member
  rcases member with member | member
  · obtain ⟨part, solid, rfl⟩ := List.mem_map.mp member
    rw [Path.solid, List.mem_filter] at solid
    refine ⟨by simpa using solid.2, ?_⟩
    rw [String.toList_ofList]
    exact Path.slashless_of_mem_split solid.1
  · rcases ends with rfl | rfl
    · cases member
    · rw [List.mem_singleton] at member
      subst member
      exact ⟨by decide, by decide⟩

theorem Part.clean {name : String} (part : Part name) (noDot : name ≠ ".") (noDots : name ≠ "..") :
    Path.Clean name.toList where
  nonempty := part.nonempty
  slashless := part.slashless
  noDot same := noDot (String.toList_injective same)
  noDots same := noDots (String.toList_injective same)

theorem stands_enter {follow : Bool} {onLink : Place → List String → Except Errno Spot}
    (jumps : ∀ here names spot, (∀ name ∈ names, Part name) → onLink here names = .ok spot →
      spot.Stands s) (names : List String) :
    ∀ {here : Place} {spot : Spot}, (∀ name ∈ names, Part name) →
      enter s follow onLink here names = .ok spot → spot.Stands s := by
  induction names with
  | nil =>
      intro here spot _ ends
      rw [enter] at ends
      split at ends
      · next found =>
          cases ends
          exact found
      · cases ends
  | cons name rest ih =>
      intro here spot parts ends
      have own := parts name (by simp)
      have later : ∀ name ∈ rest, Part name := fun name member => parts name (by simp [member])
      rw [enter] at ends
      split at ends
      · cases ends
      · next mode folder =>
          split at ends
          · exact ih later ends
          next noDot =>
          split at ends
          · exact ih later ends
          next noDots =>
          split at ends
          · cases ends
          dsimp only at ends
          split at ends
          · next vacant =>
              split at ends
              · cases ends
                exact ⟨vacant, here, name, mode, rfl, folder, own.clean noDot noDots⟩
              · cases ends
          · next target link =>
              split at ends
              · cases ends
                exact link
              · refine jumps _ _ _ (fun name member => ?_) ends
                exact (List.mem_append.mp member).elim part_of_mem_pathNames (later name)
          · exact ih later ends
      · cases ends

theorem stands_walk {follow : Bool} (k : Nat) : ∀ {here : Place} {names : List String} {spot : Spot},
    (∀ name ∈ names, Part name) → walk s follow k here names = .ok spot → spot.Stands s := by
  induction k with
  | zero => exact stands_enter (fun _ _ _ _ found => by cases found) _
  | succ k ih => exact stands_enter (fun _ _ _ parts found => ih parts found) _

theorem stands_locate {follow : Bool} {path : String} {spot : Spot}
    (ends : s.locate follow path = .ok spot) : spot.Stands s := by
  rw [locate] at ends
  dsimp only at ends
  split at ends
  · cases ends
  rcases found : (if path.toList.isEmpty then .error .notFound
      else if maxPath ≤ path.utf8ByteSize then .error .nameTooLong
      else walk s follow maxLinks (if Path.isAbsolute path.toList then [] else workPlace)
        (pathNames path.toList) : Except Errno Spot) with f | spot'
  · rw [found] at ends
    cases ends
  · rw [found] at ends
    cases ends
    split at found
    · cases found
    split at found
    · cases found
    exact stands_walk maxLinks (fun name member => part_of_mem_pathNames member) found

theorem get?_of_stat {follow : Bool} {path : String} {place : Place}
    (ends : s.stat follow path = .ok (place, e)) : s.get? place = some e := by
  rw [stat] at ends
  split at ends
  · next located =>
      cases ends
      exact stands_locate located
  · cases ends
  · cases ends

/-! Entries put and erased. -/

/-- An entry may stand at a place whose last name is clean and in a folder, if it is a folder or has
nothing below it. -/
theorem Sound.put (sound : s.Sound)
    (named : ∀ front name, p = front ++ [name] →
      Path.Clean name.toList ∧ ∃ mode, s.get? front = some (.folder mode))
    (holds : ∀ name e', s.get? (p ++ [name]) = some e' → ∃ mode, e = .folder mode) :
    (s.put p e).Sound := by
  refine .of_each fun q name e' found => ?_
  rw [get?_put] at found
  simp only [get?_put]
  by_cases own : q ++ [name] = p
  · obtain ⟨clean, mode, folder⟩ := named q name own.symm
    have above : q ≠ p := by
      rintro rfl
      simp at own
    exact ⟨clean, mode, by rw [if_neg above, folder]⟩
  · rw [if_neg own] at found
    refine ⟨sound.named _ _ _ found, ?_⟩
    by_cases here : q = p
    · subst here
      obtain ⟨mode, rfl⟩ := holds name e' found
      exact ⟨mode, if_pos rfl⟩
    · rw [if_neg here]
      exact sound.housed _ _ _ found

theorem Sound.put_alike {e' : Entry} (sound : s.Sound) (found : s.get? p = some e)
    (alike : e.Alike e') : (s.put p e').Sound := by
  refine sound.put (fun front name same => ?_) (fun name e'' below => ?_)
  · subst same
    exact ⟨sound.named _ _ _ found, sound.housed _ _ _ found⟩
  · obtain ⟨mode, folder⟩ := sound.housed _ _ _ below
    rw [found, Option.some.injEq] at folder
    subst folder
    cases e' with
    | folder mode' => exact ⟨mode', rfl⟩
    | file bytes mode' modified => cases alike
    | link target => cases alike

theorem Sound.none_below_none (sound : s.Sound) (vacant : s.get? p = none) (below : p <+: q) :
    s.get? q = none := by
  obtain ⟨r, rfl⟩ := below
  cases r with
  | nil => simpa using vacant
  | cons name r =>
      cases found : s.get? (p ++ name :: r) with
      | none => rfl
      | some e =>
          obtain ⟨mode, folder⟩ := sound.folder_of_below (List.cons_ne_nil name r) found
          rw [vacant] at folder
          cases folder

theorem Sound.put_free (sound : s.Sound) (free : (Spot.free p).Stands s) : (s.put p e).Sound := by
  obtain ⟨vacant, folder, name, mode, rfl, above, clean⟩ := free
  refine sound.put (fun front name' same => ?_) (fun name' e' below => ?_)
  · obtain ⟨rfl, same⟩ := List.append_inj' same rfl
    obtain rfl : name = name' := by simpa using same
    exact ⟨clean, mode, above⟩
  · rw [sound.none_below_none vacant (List.prefix_append _ _)] at below
    cases below

theorem Sound.erase (sound : s.Sound) (bare : ∀ name, s.get? (p ++ [name]) = none) :
    (s.erase p).Sound := by
  refine .of_each fun q name e' found => ?_
  rw [get?_erase] at found
  split at found
  · cases found
  · refine ⟨sound.named _ _ _ found, ?_⟩
    rw [get?_erase, if_neg]
    · exact sound.housed _ _ _ found
    · rintro rfl
      rw [bare name] at found
      cases found

theorem Sound.eraseTree (sound : s.Sound) : (s.eraseTree p).Sound := by
  refine .of_each fun q name e' found => ?_
  rw [get?_eraseTree] at found
  split at found
  · cases found
  · next outside =>
      refine ⟨sound.named _ _ _ found, ?_⟩
      rw [get?_eraseTree, if_neg]
      · exact sound.housed _ _ _ found
      · exact fun below => outside (below.trans (List.prefix_append _ _))

theorem not_below_self (p : Place) (name : String) : ¬ p ++ [name] <+: p := by
  intro below
  have short := below.length_le
  rw [List.length_append, List.length_singleton] at short
  omega

theorem get?_eraseBelow (s : Store) (p q : Place) :
    (s.eraseBelow p).get? q = if p <+: q ∧ q ≠ p then none else s.get? q := by
  rw [get?, eraseBelow, lookup_filter (fun k => k == p || !p.isPrefixOf k)]
  by_cases same : q = p
  · simp [same, get?]
  · by_cases below : p <+: q
    · simp [same, below, List.isPrefixOf_iff_prefix.mpr below]
    · have apart : p.isPrefixOf q = false := by
        rwa [← Bool.not_eq_true, List.isPrefixOf_iff_prefix]
      simp [below, apart, get?]

theorem Sound.eraseBelow (sound : s.Sound) : (s.eraseBelow p).Sound := by
  refine .of_each fun q name e' found => ?_
  rw [get?_eraseBelow] at found
  split at found
  · cases found
  · next outside =>
      refine ⟨sound.named _ _ _ found, ?_⟩
      rw [get?_eraseBelow, if_neg]
      · exact sound.housed _ _ _ found
      · rintro ⟨below, other⟩
        refine outside ⟨below.trans (List.prefix_append _ _), ?_⟩
        rintro rfl
        exact not_below_self q name below

/-! Trees moved. -/

/-- A tree that is moved to where nothing stands is found there and no longer where it was. -/
theorem get?_moveTree (vacant : ∀ x ∈ s.entries, ¬ p' <+: x.1) (q : Place) :
    (s.moveTree p p').get? q =
      if p' <+: q then s.get? (p ++ q.drop p'.length)
      else if p <+: q then none else s.get? q := by
  simp only [get?, moveTree]
  generalize s.entries = entries at vacant
  induction entries with
  | nil => simp
  | cons x rest ih =>
      obtain ⟨k, v⟩ := x
      rw [List.forall_mem_cons] at vacant
      have others := ih vacant.2
      by_cases moved : p <+: k
      · obtain ⟨r, rfl⟩ := moved
        have self : p.isPrefixOf (p ++ r) = true :=
          List.isPrefixOf_iff_prefix.mpr (List.prefix_append p r)
        simp only [List.map_cons, self, if_true, List.drop_left, List.lookup_cons]
        by_cases target : p' <+: q
        · obtain ⟨r', rfl⟩ := target
          by_cases same : r' = r
          · simp [same]
          · have other : (p' ++ r' == p' ++ r) = false := by simpa using same
            have other' : (p ++ r' == p ++ r) = false := by simpa using same
            simpa [other, other'] using others
        · have other : (q == p' ++ r) = false := by
            rw [beq_eq_false_iff_ne]
            rintro rfl
            exact target (List.prefix_append p' r)
          rw [other]
          simp only [if_neg target] at others ⊢
          by_cases source : p <+: q
          · simpa [source] using others
          · have other' : (q == p ++ r) = false := by
              rw [beq_eq_false_iff_ne]
              rintro rfl
              exact source (List.prefix_append p r)
            simpa [source, other'] using others
      · have still : p.isPrefixOf k = false := by
          rwa [← Bool.not_eq_true, List.isPrefixOf_iff_prefix]
        simp only [List.map_cons, still, Bool.false_eq_true, if_false, List.lookup_cons]
        by_cases target : p' <+: q
        · have other : (q == k) = false := by
            rw [beq_eq_false_iff_ne]
            rintro rfl
            exact vacant.1 target
          have other' : (p ++ q.drop p'.length == k) = false := by
            rw [beq_eq_false_iff_ne]
            rintro rfl
            exact moved (List.prefix_append _ _)
          rw [other, other']
          exact others
        · simp only [if_neg target] at others ⊢
          by_cases same : q = k
          · simp [same, moved]
          · have other : (q == k) = false := by simpa using same
            rw [other]
            exact others

theorem Sound.vacant (sound : s.Sound) (free : s.get? p = none) : ∀ x ∈ s.entries, ¬ p <+: x.1 := by
  intro x member below
  have absent := sound.none_below_none free below
  rw [get?, List.lookup_eq_none_iff] at absent
  simpa using absent x member

theorem Sound.moveTree (sound : s.Sound) {p p' : Place} (free : (Spot.free p').Stands s)
    (outside : ¬ p <+: p') : (s.moveTree p p').Sound := by
  obtain ⟨vacant, folder', name', mode', rfl, above, clean⟩ := free
  have away : ¬ p <+: folder' := fun below => outside (below.trans (List.prefix_append _ _))
  have after := get?_moveTree (p := p) (sound.vacant vacant)
  refine .of_each fun q name e found => ?_
  rw [after] at found ⊢
  by_cases moved : folder' ++ [name'] <+: q ++ [name]
  · rw [if_pos moved] at found
    rcases List.prefix_concat_iff.mp (by simpa using moved) with same | below
    · -- the tree itself
      obtain ⟨rfl, last⟩ := List.append_inj' same rfl
      obtain rfl : name' = name := by simpa using last
      exact ⟨clean, mode', by rw [if_neg (not_below_self _ _), if_neg away, above]⟩
    · -- what is below it
      obtain ⟨r, rfl⟩ := below
      rw [List.append_assoc, List.drop_left, ← List.append_assoc] at found
      rw [if_pos (List.prefix_append _ _), List.drop_left]
      exact ⟨sound.named _ _ _ found, sound.housed _ _ _ found⟩
  · rw [if_neg moved] at found
    by_cases gone : p <+: q ++ [name]
    · rw [if_pos gone] at found
      cases found
    · rw [if_neg gone] at found
      have before (r : Place) (out : ¬ r <+: q ++ [name]) : ¬ r <+: q :=
        fun below => out (below.trans (List.prefix_append _ _))
      rw [if_neg (before _ moved), if_neg (before _ gone)]
      exact ⟨sound.named _ _ _ found, sound.housed _ _ _ found⟩

end FileQuery.Store
