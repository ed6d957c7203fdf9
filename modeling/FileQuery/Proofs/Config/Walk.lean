import FileQuery.Config.Environment
import Mathlib.Data.List.Infix

/-! # Where the parts of a name lead

The parts of a variable's name lead down a configuration along a path of keys, at each section by
the key that takes the most of them (`Leads`). A value that is put there is all that changes
(`nodeAt?_assign`), and parts that lead nowhere change nothing (`assign_of_astray`). -/
set_option autoImplicit false
namespace FileQuery.Config

open Json (Value)

/-! ## Names and their parts -/

theorem nameParts_eq_splitOn (s : List Char) : nameParts s = s.splitOn '_' := by
  induction s with
  | nil => rfl
  | cons c r ih =>
      have some : nameParts r ≠ [] := ih ▸ List.splitOn_ne_nil '_' r
      rw [nameParts, List.splitOn_cons_eq_if_modifyHead, ← ih]
      by_cases mark : c = '_'
      · simp [mark]
      · obtain ⟨p, ps, parts⟩ := List.exists_cons_of_ne_nil some
        simp [mark, parts]

theorem nameParts_ne_nil (s : List Char) : nameParts s ≠ [] := by
  rw [nameParts_eq_splitOn]
  exact List.splitOn_ne_nil '_' s

theorem nameParts_injective : Function.Injective nameParts := by
  intro s t same
  rw [nameParts_eq_splitOn, nameParts_eq_splitOn] at same
  have back (r : List Char) : ['_'].intercalate (r.splitOn '_') = r := List.intercalate_splitOn '_'
  rw [← back s, same, back]

def joined (path : List String) : List Char := ['_'].intercalate (path.map String.toList)

theorem joined_cons_cons (key next : String) (path : List String) :
    joined (key :: next :: path) = key.toList ++ '_' :: joined (next :: path) := by
  simp [joined, List.intercalate_cons_cons]

theorem prefix_joined (key : String) (path : List String) : key.toList <+: joined (key :: path) := by
  cases path with
  | nil => simp [joined]
  | cons next path =>
      rw [joined_cons_cons]
      exact List.prefix_append _ _

/-- A path is cut into the parts of its keys, wherever the marks between these come from. -/
theorem nameParts_joined {path : List String} (some : path ≠ []) :
    nameParts (joined path) = path.flatMap keyParts := by
  induction path with
  | nil => exact absurd rfl some
  | cons key path ih =>
      cases path with
      | nil => simp [joined, keyParts]
      | cons next path =>
          rw [joined_cons_cons, nameParts_eq_splitOn, List.splitOn_append_cons_self,
            ← nameParts_eq_splitOn, ← nameParts_eq_splitOn, ih (List.cons_ne_nil _ _)]
          rfl

/-! ## Entries -/

/-- Changes the value of the first entry of a key. -/
def alter (change : Value → Value) (key : String) : Section → Section
  | [] => []
  | (k, old) :: es => if k = key then (k, change old) :: es else (k, old) :: alter change key es

section Alter
variable {f g : Value → Value} {key other : String} {c : Section}

theorem keys_alter : (alter f key c).map Prod.fst = c.map Prod.fst := by
  induction c with
  | nil => rfl
  | cons e es ih =>
      rw [alter]
      split
      · rfl
      · rw [List.map_cons, List.map_cons, ih]

theorem lookup_alter_self : (alter f key c).lookup key = (c.lookup key).map f := by
  induction c with
  | nil => rfl
  | cons e es ih =>
      obtain ⟨k, old⟩ := e
      rw [alter]
      by_cases same : k = key
      · subst same
        rw [if_pos rfl, List.lookup_cons_self, List.lookup_cons_self, Option.map_some]
      · have other : (key == k) = false := beq_false_of_ne (Ne.symm same)
        rw [if_neg same, List.lookup_cons, List.lookup_cons, other, ih]

theorem lookup_alter_of_ne (ne : other ≠ key) : (alter f key c).lookup other = c.lookup other := by
  induction c with
  | nil => rfl
  | cons e es ih =>
      obtain ⟨k, old⟩ := e
      rw [alter]
      by_cases same : k = key
      · subst same
        rw [if_pos rfl, List.lookup_cons, List.lookup_cons, beq_false_of_ne ne]
      · rw [if_neg same, List.lookup_cons, List.lookup_cons, ih]

theorem alter_congr (agree : ∀ old, c.lookup key = some old → f old = g old) :
    alter f key c = alter g key c := by
  induction c with
  | nil => rfl
  | cons e es ih =>
      obtain ⟨k, old⟩ := e
      rw [alter, alter]
      by_cases same : k = key
      · subst same
        rw [if_pos rfl, if_pos rfl, agree old List.lookup_cons_self]
      · rw [if_neg same, if_neg same, ih]
        intro old found
        refine agree old ?_
        rw [List.lookup_cons, beq_false_of_ne (Ne.symm same), found]

theorem alter_id : alter (fun old => old) key c = c := by
  induction c with
  | nil => rfl
  | cons e es ih =>
      rw [alter, ih, ite_self]

theorem alter_alter : alter f key (alter g key c) = alter (fun old => f (g old)) key c := by
  induction c with
  | nil => rfl
  | cons e es ih =>
      obtain ⟨k, old⟩ := e
      by_cases same : k = key
      · simp [alter, same]
      · simp [alter, same, ih]

theorem alter_comm (ne : key ≠ other) :
    alter f key (alter g other c) = alter g other (alter f key c) := by
  induction c with
  | nil => rfl
  | cons e es ih =>
      obtain ⟨k, old⟩ := e
      by_cases first : k = key
      · have second : k ≠ other := first ▸ ne
        simp [alter, first, ne]
      · by_cases second : k = other
        · simp [alter, second, Ne.symm ne]
        · simp [alter, first, second, ih]

end Alter

/-! ## The best key -/

section BestKey
variable {parts : List (List Char)} {key : String} {c d : Section}

theorem bestKey?_eq_some (best : bestKey? parts c = some key) :
    key ∈ c.map Prod.fst ∧ keyParts key <+: parts := by
  induction c with
  | nil => cases best
  | cons e es ih =>
      obtain ⟨k, old⟩ := e
      rw [bestKey?] at best
      have later (found : bestKey? parts es = some key) :
          key ∈ ((k, old) :: es).map Prod.fst ∧ keyParts key <+: parts :=
        ⟨List.mem_cons_of_mem _ (ih found).1, (ih found).2⟩
      split at best
      · next front =>
          have here : k ∈ ((k, old) :: es).map Prod.fst ∧ keyParts k <+: parts :=
            ⟨List.mem_cons_self, List.isPrefixOf_iff_prefix.mp front⟩
          split at best
          · next l found =>
              split at best
              · exact later (found.trans best)
              · exact Option.some.inj best ▸ here
          · exact Option.some.inj best ▸ here
      · exact later best

theorem bestKey?_eq_none (none : bestKey? parts c = none) (member : key ∈ c.map Prod.fst) :
    ¬ keyParts key <+: parts := by
  induction c with
  | nil => cases member
  | cons e es ih =>
      obtain ⟨k, old⟩ := e
      rw [bestKey?] at none
      split at none
      · split at none
        · split at none <;> cases none
        · cases none
      · next front =>
          rw [List.map_cons, List.mem_cons] at member
          rcases member with rfl | member
          · exact fun before => front (List.isPrefixOf_iff_prefix.mpr before)
          · exact ih none member

theorem bestKey?_congr (same : c.map Prod.fst = d.map Prod.fst) :
    bestKey? parts c = bestKey? parts d := by
  induction c generalizing d with
  | nil =>
      rw [List.map_nil, eq_comm, List.map_eq_nil_iff] at same
      rw [same]
  | cons e es ih =>
      cases d with
      | nil => cases same
      | cons e' es' =>
          obtain ⟨k, old⟩ := e
          obtain ⟨k', old'⟩ := e'
          rw [List.map_cons, List.map_cons, List.cons.injEq] at same
          obtain ⟨rfl, rest⟩ := same
          rw [bestKey?, bestKey?, ih rest]

theorem exists_of_bestKey? (best : bestKey? parts c = some key) :
    ∃ old left, c.lookup key = some old ∧ parts = keyParts key ++ left := by
  obtain ⟨member, left, rfl⟩ := bestKey?_eq_some best
  cases found : c.lookup key with
  | none =>
      obtain ⟨e, listed, rfl⟩ := List.mem_map.mp member
      have absent := List.lookup_eq_none_iff.mp found e listed
      simp at absent
  | some old => exact ⟨old, left, rfl, rfl⟩

end BestKey

/-! ## One step down -/

/-- What an entry becomes that is reached by its key with parts left. -/
def entered (v : Value) (key : String) (left : List (List Char)) (old : Value) : Value :=
  if key.isEmpty then old else if left.isEmpty then v else assignBelow v left old

section Assign
variable {v : Value} {parts left : List (List Char)} {key : String} {c : Section}

theorem assignAt_eq_alter (v : Value) (key : String) (left : List (List Char)) (c : Section) :
    assignAt v key left c = alter (entered v key left) key c := by
  induction c with
  | nil => rw [assignAt, alter]
  | cons e es ih => rw [assignAt, alter, ih, entered]

theorem assignBelow_object (v : Value) (parts : List (List Char)) (es : Section) :
    assignBelow v parts (.object es) = .object (assign v parts es) := by
  rw [assignBelow, assign]
  cases bestKey? parts es <;> rfl

def IsLeaf (v : Value) : Prop := ∀ es, v ≠ .object es

theorem assignBelow_of_isLeaf {old : Value} (leaf : IsLeaf old) :
    assignBelow v parts old = old := by
  cases old with
  | object es => exact absurd rfl (leaf es)
  | _ => rfl

theorem assign_of_bestKey?_eq_none (none : bestKey? parts c = none) : assign v parts c = c := by
  rw [assign, none]

theorem assign_of_bestKey? (best : bestKey? parts c = some key) (cut : parts = keyParts key ++ left) :
    assign v parts c = alter (entered v key left) key c := by
  have behind : parts.drop (keyParts key).length = left := by rw [cut, List.drop_left]
  simp only [assign, best, behind, assignAt_eq_alter]

theorem keys_assign (v : Value) (parts : List (List Char)) (c : Section) :
    (assign v parts c).map Prod.fst = c.map Prod.fst := by
  rw [assign]
  split
  · rfl
  · rw [assignAt_eq_alter, keys_alter]

end Assign

/-- From the sections that parts lead into to those they lead from: the parts get fewer. -/
theorem parts_induction {motive : List (List Char) → Section → Prop}
    (step : ∀ parts c,
      (∀ key left es, parts = keyParts key ++ left → c.lookup key = some (.object es) →
        motive left es) → motive parts c) (parts : List (List Char)) (c : Section) :
    motive parts c := by
  induction long : parts.length using Nat.strong_induction_on generalizing parts c with
  | _ n ih =>
      refine step parts c fun key left es cut _ => ih left.length ?_ left es rfl
      have some := List.length_pos_of_ne_nil (nameParts_ne_nil key.toList)
      rw [← long, cut, List.length_append, keyParts]
      omega

/-! ## Paths -/

/-- What stands at a path: a section with its keys in order, or another value. -/
inductive Node where
  | branch (keys : List String)
  | leaf (v : Value)

def nodeAt? : List String → Value → Option Node
  | [], .object es => some (.branch (es.map Prod.fst))
  | [], v => some (.leaf v)
  | key :: path, .object es => (es.lookup key).bind (nodeAt? path)
  | _ :: _, _ => none

theorem nodeAt?_cons_of_lookup {key : String} {c es : Section}
    (opens : c.lookup key = some (.object es)) (path : List String) :
    nodeAt? (key :: path) (.object c) = nodeAt? path (.object es) := by
  rw [nodeAt?, opens, Option.bind_some]

theorem nodeAt?_of_isLeaf {v : Value} (leaf : IsLeaf v) (path : List String) :
    nodeAt? path v = if path = [] then some (.leaf v) else none := by
  cases v with
  | object es => exact absurd rfl (leaf es)
  | _ => cases path <;> rfl

theorem nodeAt?_below_leaf {x v : Value} {path below : List String}
    (leaf : nodeAt? path x = some (.leaf v)) (some : below ≠ []) :
    nodeAt? (path ++ below) x = none := by
  induction path generalizing x with
  | nil =>
      obtain ⟨key, below, rfl⟩ := List.exists_cons_of_ne_nil some
      cases x with
      | object es => cases leaf
      | _ => rfl
  | cons key path ih =>
      cases x with
      | object es =>
          obtain ⟨y, found, under⟩ := Option.bind_eq_some_iff.mp leaf
          rw [List.cons_append, nodeAt?, found, Option.bind_some, ih under]
      | _ => cases leaf

/-- Parts lead along a path of keys, at each section by the best key of what is left of them. -/
inductive Leads : List (List Char) → Section → List String → Prop
  | entry {parts : List (List Char)} {key : String} {c : Section}
      (best : bestKey? parts c = some key) (named : key ≠ "") (all : parts = keyParts key) :
      Leads parts c [key]
  | within {parts left : List (List Char)} {key : String} {c es : Section} {path : List String}
      (best : bestKey? parts c = some key) (named : key ≠ "") (cut : parts = keyParts key ++ left)
      (more : left ≠ []) (opens : c.lookup key = some (.object es)) (leads : Leads left es path) :
      Leads parts c (key :: path)

section Leads
variable {v : Value} {parts : List (List Char)} {path : List String} {c d : Section}

theorem Leads.path_ne_nil (leads : Leads parts c path) : path ≠ [] := by
  cases leads <;> exact List.cons_ne_nil _ _

theorem Leads.parts_eq (leads : Leads parts c path) : parts = path.flatMap keyParts := by
  induction leads with
  | entry best named all => rw [List.flatMap_singleton, all]
  | within best named cut more opens leads ih => rw [List.flatMap_cons, ← ih, cut]

theorem Leads.unique (leads : Leads parts c path) : ∀ {other : List String},
    Leads parts c other → path = other := by
  induction leads with
  | entry best named all =>
      rintro other (⟨best', -, -⟩ | ⟨best', -, cut, more, -, -⟩)
      · rw [Option.some.inj (best.symm.trans best')]
      · obtain rfl := Option.some.inj (best.symm.trans best')
        exact absurd (List.append_right_eq_self.mp (cut.symm.trans all)) more
  | within best named cut more opens leads ih =>
      rintro other (⟨best', -, all⟩ | ⟨best', -, cut', -, opens', leads'⟩)
      · obtain rfl := Option.some.inj (best.symm.trans best')
        exact absurd (List.append_right_eq_self.mp (cut.symm.trans all)) more
      · obtain rfl := Option.some.inj (best.symm.trans best')
        obtain rfl := Value.object.inj (Option.some.inj (opens.symm.trans opens'))
        obtain rfl := List.append_cancel_left (cut.symm.trans cut')
        rw [ih leads']

theorem Leads.exists_nodeAt? (leads : Leads parts c path) :
    ∃ node, nodeAt? path (.object c) = some node := by
  induction leads with
  | entry best named all =>
      obtain ⟨old, _, found, -⟩ := exists_of_bestKey? best
      rw [nodeAt?, found, Option.bind_some]
      cases old <;> exact ⟨_, rfl⟩
  | within best named cut more opens leads ih =>
      rw [nodeAt?_cons_of_lookup opens]
      exact ih

theorem entered_of_isEmpty {key : String} (named : key ≠ "") (old : Value) :
    entered v key [] old = v := by
  simp [entered, named]

theorem entered_of_ne_nil {key : String} {left : List (List Char)} (named : key ≠ "")
    (more : left ≠ []) (old : Value) : entered v key left old = assignBelow v left old := by
  simp [entered, named, more]

/-- A value that is put where parts lead stands there with nothing below it, and all else is as it
was. -/
theorem nodeAt?_assign (leads : Leads parts c path) (leaf : IsLeaf v) (q : List String) :
    nodeAt? q (.object (assign v parts c)) =
      if q = path then some (.leaf v) else if path <+: q then none else nodeAt? q (.object c) := by
  induction leads generalizing q with
  | @entry parts key c best named all =>
      obtain ⟨old, _, found, -⟩ := exists_of_bestKey? best
      rw [assign_of_bestKey? best (all.trans (List.append_nil _).symm)]
      cases q with
      | nil => simp [nodeAt?, keys_alter]
      | cons k q =>
          by_cases same : k = key
          · subst same
            rw [nodeAt?, lookup_alter_self, found, Option.map_some, Option.bind_some,
              entered_of_isEmpty named, nodeAt?_of_isLeaf leaf]
            simp
          · rw [nodeAt?, lookup_alter_of_ne same, nodeAt?]
            simp [same, Ne.symm same]
  | @within parts left key c es path best named cut more opens leads ih =>
      rw [assign_of_bestKey? best cut]
      cases q with
      | nil => simp [nodeAt?, keys_alter]
      | cons k q =>
          by_cases same : k = key
          · subst same
            rw [nodeAt?, lookup_alter_self, opens, Option.map_some, Option.bind_some,
              entered_of_ne_nil named more, assignBelow_object, ih, nodeAt?_cons_of_lookup opens]
            simp
          · rw [nodeAt?, lookup_alter_of_ne same, nodeAt?]
            simp [same, Ne.symm same]

theorem nodeAt?_assign_of_leaf (leads : Leads parts c path) (leaf : IsLeaf v) {old : Value}
    (stood : nodeAt? path (.object c) = some (.leaf old)) (q : List String) :
    nodeAt? q (.object (assign v parts c)) =
      if q = path then some (.leaf v) else nodeAt? q (.object c) := by
  rw [nodeAt?_assign leads leaf]
  split
  · rfl
  · next other =>
      split
      · next below =>
          obtain ⟨rest, rfl⟩ := below
          refine (nodeAt?_below_leaf stood ?_).symm
          rintro rfl
          exact other (List.append_nil path)
      · rfl

theorem assign_of_astray : ∀ {parts : List (List Char)} {c : Section},
    (∀ path, ¬ Leads parts c path) → assign v parts c = c := by
  intro parts c
  induction parts, c using parts_induction with
  | step parts c ih =>
      intro astray
      cases best : bestKey? parts c with
      | none => exact assign_of_bestKey?_eq_none best
      | some key =>
          obtain ⟨old, left, found, cut⟩ := exists_of_bestKey? best
          rw [assign_of_bestKey? best cut]
          refine (alter_congr fun old found => ?_).trans alter_id
          by_cases named : key = ""
          · simp [entered, named]
          by_cases last : left = []
          · rw [last, List.append_nil] at cut
            exact absurd (.entry best named cut) (astray [key])
          rw [entered_of_ne_nil named last]
          by_cases leaf : IsLeaf old
          · exact assignBelow_of_isLeaf leaf
          · obtain ⟨es, rfl⟩ := by simpa [IsLeaf] using leaf
            have inside : ∀ path, ¬ Leads left es path := fun path leads =>
              astray (key :: path) (.within best named cut last found leads)
            rw [assignBelow_object, ih key left es cut found inside]

end Leads

end FileQuery.Config
