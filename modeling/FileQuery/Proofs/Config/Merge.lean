import FileQuery.Proofs.Config.Walk
import FileQuery.Proofs.Json.Document

/-! # One configuration laid over another

What stands under a key after a merge is the entry that is laid over, merged with what stood there if
both are sections, or what stood there if nothing is laid over it (`lookup_merge`,
`lookup_merge_of_not_mem`). The laws of merging follow from this key by key: a configuration laid over
nothing is itself, and laid over a second time changes nothing (`merge_merge`); its values stand in the
result (`leaf_of_override`), and so do those of the base that it leaves alone (`leaf_of_base`). -/
set_option autoImplicit false
namespace FileQuery.Config

open Json (Value setEntry)

/-! ## Entries that are set -/

section SetEntry
variable {key other : String} {v : Value} {c : Section}

theorem lookup_setEntry_self : (setEntry key v c).lookup key = some v := by
  induction c with
  | nil => exact List.lookup_cons_self
  | cons e es ih =>
      obtain ⟨k, old⟩ := e
      rw [setEntry]
      by_cases same : k = key
      · rw [if_pos same, same]
        exact List.lookup_cons_self
      · rw [if_neg same, List.lookup_cons, beq_false_of_ne (Ne.symm same)]
        exact ih

theorem lookup_setEntry_of_ne (ne : other ≠ key) :
    (setEntry key v c).lookup other = c.lookup other := by
  induction c with
  | nil => rw [setEntry, List.lookup_cons, beq_false_of_ne ne]
  | cons e es ih =>
      obtain ⟨k, old⟩ := e
      rw [setEntry]
      by_cases same : k = key
      · rw [if_pos same, List.lookup_cons, List.lookup_cons, same, beq_false_of_ne ne]
      · rw [if_neg same, List.lookup_cons, List.lookup_cons, ih]

theorem setEntry_of_lookup (found : c.lookup key = some v) : setEntry key v c = c := by
  induction c with
  | nil => cases found
  | cons e es ih =>
      obtain ⟨k, old⟩ := e
      rw [setEntry]
      by_cases same : k = key
      · subst same
        rw [List.lookup_cons_self, Option.some.injEq] at found
        rw [if_pos rfl, found]
      · rw [List.lookup_cons, beq_false_of_ne (Ne.symm same)] at found
        rw [if_neg same, ih found]

theorem lookup_eq_none_of_not_mem (absent : key ∉ c.map Prod.fst) : c.lookup key = none := by
  rw [List.lookup_eq_none_iff]
  intro e member
  exact bne_iff_ne.mpr fun same => absent (same ▸ List.mem_map_of_mem member)

end SetEntry

/-! ## Trees whose keys differ -/

/-- The keys of a section differ from one another, and so do those of every section within it. -/
inductive Keyed : Section → Prop
  | nil : Keyed []
  | cons {key : String} {v : Value} {es : Section} (new : key ∉ es.map Prod.fst)
      (within : ∀ c, v = .object c → Keyed c) (rest : Keyed es) : Keyed ((key, v) :: es)

theorem Keyed.within {o es : Section} {key : String} (keyed : Keyed o)
    (opens : o.lookup key = some (.object es)) : Keyed es := by
  induction keyed with
  | nil => cases opens
  | @cons k v rest new within _ _ ih =>
      by_cases same : key = k
      · subst same
        rw [List.lookup_cons_self, Option.some.injEq] at opens
        exact within es opens
      · rw [List.lookup_cons, beq_false_of_ne same] at opens
        exact ih opens

/-! ## One entry over another -/

theorem overlay_object (es bs : Section) :
    overlay (.object es) (some (.object bs)) = .object (merge bs es) := by
  rw [overlay]

theorem overlay_none (v : Value) : overlay v none = v := by
  cases v <;> rw [overlay] <;> rintro _ _ _ ⟨⟩

/-- Two sections are merged; whatever else is laid over takes the place of what stood there. -/
theorem overlay_cases (v : Value) (old : Option Value) :
    (∃ es bs, v = .object es ∧ old = some (.object bs) ∧ overlay v old = .object (merge bs es)) ∨
      (∀ es bs, v = .object es → old ≠ some (.object bs)) ∧ overlay v old = v := by
  by_cases both : ∃ es bs, v = .object es ∧ old = some (.object bs)
  · obtain ⟨es, bs, rfl, rfl⟩ := both
    exact .inl ⟨es, bs, rfl, rfl, overlay_object es bs⟩
  · push Not at both
    refine .inr ⟨both, ?_⟩
    rw [overlay]
    rintro es bs rfl
    exact both es bs rfl

theorem merge_cons (b es : Section) (key : String) (v : Value) :
    merge b ((key, v) :: es) = merge (setEntry key (overlay v (b.lookup key)) b) es := by
  rw [merge]

section Merge
variable {b o : Section} {key : String} {v : Value}

theorem lookup_merge_of_not_mem (absent : key ∉ o.map Prod.fst) :
    (merge b o).lookup key = b.lookup key := by
  induction o generalizing b with
  | nil => rw [merge]
  | cons e es ih =>
      obtain ⟨k, v⟩ := e
      rw [List.map_cons, List.mem_cons, not_or] at absent
      rw [merge_cons, ih absent.2, lookup_setEntry_of_ne absent.1]

theorem lookup_merge (keyed : Keyed o) (found : o.lookup key = some v) :
    (merge b o).lookup key = some (overlay v (b.lookup key)) := by
  induction keyed generalizing b with
  | nil => cases found
  | @cons k w es new _ _ _ ih =>
      rw [merge_cons]
      by_cases same : key = k
      · subst same
        rw [List.lookup_cons_self, Option.some.injEq] at found
        rw [lookup_merge_of_not_mem new, lookup_setEntry_self, found]
      · rw [List.lookup_cons, beq_false_of_ne same] at found
        rw [ih found, lookup_setEntry_of_ne same]

/-! ## Laws -/

theorem merge_of_disjoint (keyed : Keyed o) (apart : ∀ e ∈ o, e.1 ∉ b.map Prod.fst) :
    merge b o = b ++ o := by
  induction keyed generalizing b with
  | nil => rw [merge, List.append_nil]
  | @cons k v es new _ _ _ ih =>
      obtain ⟨first, others⟩ := List.forall_mem_cons.mp apart
      rw [merge_cons, lookup_eq_none_of_not_mem first, overlay_none, Json.setEntry_of_not_mem v first,
        ih, List.append_assoc, List.singleton_append]
      intro e member
      rw [List.map_append, List.mem_append, not_or]
      refine ⟨others e member, ?_⟩
      rw [List.map_singleton, List.mem_singleton]
      rintro rfl
      exact new (List.mem_map_of_mem member)

theorem merge_nil_left (keyed : Keyed o) : merge [] o = o :=
  merge_of_disjoint keyed fun _ _ => List.not_mem_nil

/-- Entries that change nothing where they are laid over change nothing together. -/
theorem merge_of_absorbed
    (absorbed : ∀ e ∈ o, ∃ old, b.lookup e.1 = some old ∧ overlay e.2 (some old) = old) :
    merge b o = b := by
  induction o with
  | nil => rw [merge]
  | cons e es ih =>
      obtain ⟨k, v⟩ := e
      obtain ⟨⟨old, found, kept⟩, others⟩ := List.forall_mem_cons.mp absorbed
      rw [merge_cons, found, kept, setEntry_of_lookup found, ih others]

theorem lookup_of_mem (keyed : Keyed o) {e : String × Value} (member : e ∈ o) :
    o.lookup e.1 = some e.2 := by
  induction keyed with
  | nil => cases member
  | @cons k v es new _ _ _ ih =>
      rcases List.mem_cons.mp member with rfl | later
      · exact List.lookup_cons_self
      · have other : e.1 ≠ k := by
          rintro rfl
          exact new (List.mem_map_of_mem later)
        rw [List.lookup_cons, beq_false_of_ne other]
        exact ih later

/-- What is laid over a second time changes nothing if this holds of each of its entries. -/
theorem merge_merge_of_entries (keyed : Keyed o)
    (again : ∀ e ∈ o, ∀ old, overlay e.2 (some (overlay e.2 old)) = overlay e.2 old) (b : Section) :
    merge (merge b o) o = merge b o :=
  merge_of_absorbed fun e member =>
    ⟨_, lookup_merge keyed (lookup_of_mem keyed member), again e member _⟩

theorem overlay_overlay (keyed : Keyed o) :
    ∀ e ∈ o, ∀ old, overlay e.2 (some (overlay e.2 old)) = overlay e.2 old := by
  induction keyed with
  | nil => simp
  | @cons k v es _ within _ inner ih =>
      refine List.forall_mem_cons.mpr ⟨fun old => ?_, ih⟩
      have merged (c : Section) (same : v = .object c) (base : Section) :
          merge (merge base c) c = merge base c :=
        merge_merge_of_entries (within c same) (inner c same) base
      rcases overlay_cases v old with ⟨c, bs, rfl, rfl, put⟩ | ⟨-, put⟩
      · simp only [put, overlay_object, merged c rfl]
      · simp only [put]
        -- a section that took the place of what stood there is now merged with itself
        rcases overlay_cases v (some v) with ⟨c, bs, rfl, same, own⟩ | ⟨-, own⟩
        · obtain rfl := Value.object.inj (Option.some.inj same)
          have twice := merged c rfl []
          rw [merge_nil_left (within c rfl)] at twice
          rw [own, twice]
        · exact own

theorem merge_merge (keyed : Keyed o) (b : Section) : merge (merge b o) o = merge b o :=
  merge_merge_of_entries keyed (overlay_overlay keyed) b

theorem merge_self (keyed : Keyed o) : merge o o = o := by
  have twice := merge_merge keyed []
  rwa [merge_nil_left keyed] at twice

/-! ## Paths -/

theorem nodeAt?_merge_of_mem (keyed : Keyed o) (found : o.lookup key = some v) (path : List String) :
    nodeAt? (key :: path) (.object (merge b o)) = nodeAt? path (overlay v (b.lookup key)) := by
  rw [nodeAt?, lookup_merge keyed found, Option.bind_some]

theorem exists_section_of_nodeAt? {x : Value} {next : String} {path : List String} {node : Node}
    (stands : nodeAt? (next :: path) x = some node) : ∃ c, x = .object c := by
  cases x with
  | object c => exact ⟨c, rfl⟩
  | _ => cases stands

theorem leaf_of_override (keyed : Keyed o) {path : List String}
    (stands : nodeAt? path (.object o) = some (.leaf v)) :
    nodeAt? path (.object (merge b o)) = some (.leaf v) := by
  induction path generalizing b o with
  | nil => cases stands
  | cons key path ih =>
      rw [nodeAt?] at stands
      obtain ⟨w, found, below⟩ := Option.bind_eq_some_iff.mp stands
      rw [nodeAt?_merge_of_mem keyed found]
      rcases overlay_cases w (b.lookup key) with ⟨es, bs, rfl, -, put⟩ | ⟨-, put⟩
      · rw [put]
        exact ih (keyed.within found) below
      · rw [put]
        exact below

/-- A value of the base stays if nothing on the way to it, and nothing in its place, is laid over by
anything but a section that the way leads into. -/
theorem leaf_of_base (keyed : Keyed o) {path : List String}
    (stands : nodeAt? path (.object b) = some (.leaf v))
    (clear : ∀ p, p <+: path → ∀ w, nodeAt? p (.object o) ≠ some (.leaf w))
    (undefined : ∀ keys, nodeAt? path (.object o) ≠ some (.branch keys)) :
    nodeAt? path (.object (merge b o)) = some (.leaf v) := by
  induction path generalizing b o with
  | nil => cases stands
  | cons key path ih =>
      cases found : o.lookup key with
      | none =>
          have absent : key ∉ o.map Prod.fst := by
            intro member
            obtain ⟨e, listed, rfl⟩ := List.mem_map.mp member
            cases (lookup_of_mem keyed listed).symm.trans found
          rwa [nodeAt?, lookup_merge_of_not_mem absent]
      | some w =>
          have under (q : List String) :
              nodeAt? (key :: q) (.object o) = nodeAt? q w := by
            rw [nodeAt?, found, Option.bind_some]
          cases w with
          | object es =>
              rw [nodeAt?] at stands
              obtain ⟨x, stood, below⟩ := Option.bind_eq_some_iff.mp stands
              cases path with
              | nil => exact absurd (under []) (undefined _)
              | cons next path =>
                  obtain ⟨bs, rfl⟩ := exists_section_of_nodeAt? below
                  rw [nodeAt?_merge_of_mem keyed found, stood, overlay_object]
                  refine ih (keyed.within found) below (fun p front w => ?_) fun keys => ?_
                  · rw [← under]
                    exact clear _ (List.cons_prefix_cons.mpr ⟨rfl, front⟩) w
                  · rw [← under]
                    exact undefined keys
          | _ =>
              refine absurd (under []) (clear [key] ?_ _)
              exact List.cons_prefix_cons.mpr ⟨rfl, List.nil_prefix⟩

end Merge

end FileQuery.Config
