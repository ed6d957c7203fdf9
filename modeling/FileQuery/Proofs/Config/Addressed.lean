import FileQuery.Proofs.Config.Environment
import Mathlib.Data.List.Pairwise

/-! # Variables that name one entry

In a tree of plain keys none of which begins with the parts of another beside it, the path of every
entry is read back from its name (`WellNamed.leads`), so there is a variable for each entry that sets
it and leaves all else as it was (`entry_addressed`). -/
set_option autoImplicit false
namespace FileQuery.Text

/-! ## Capitals of ASCII -/

variable {s : List Char}

def IsPlainLower (c : Char) : Prop := c.toNat < 128 ∧ c.isUpper = false
  deriving Decidable

instance (s : List Char) : Decidable (∀ c ∈ s, IsPlainLower c) := List.decidableBAll _ s

theorem toLower_toUpper : ∀ n < 128, IsPlainLower (Char.ofNat n) →
    (Char.ofNat n).toUpper.toNat < 128 ∧ (Char.ofNat n).toUpper.toLower = Char.ofNat n := by
  decide

theorem lowerAfter_of_ascii (ascii : ∀ c ∈ s, c.toNat < 128) (before : List Char) :
    lowerAfter before s = s.map Char.toLower := by
  induction s generalizing before with
  | nil => rfl
  | cons c r ih =>
      have here := ascii c List.mem_cons_self
      have sigma : c ≠ 'Σ' := by
        rintro rfl
        exact absurd here (by decide)
      rw [lowerAfter, if_neg sigma, lowerOf, if_pos here,
        ih fun d member => ascii d (List.mem_cons_of_mem _ member)]
      rfl

theorem lower_upper (plain : ∀ c ∈ s, IsPlainLower c) : lower (upper s) = s := by
  have capital (c : Char) (member : c ∈ s) : c.toUpper.toNat < 128 ∧ c.toUpper.toLower = c := by
    have at_code := toLower_toUpper c.toNat (plain c member).1
    rw [Char.ofNat_toNat] at at_code
    exact at_code (plain c member)
  have up : upper s = s.map Char.toUpper := by
    rw [upper, List.map_eq_flatMap]
    exact List.flatMap_congr fun c member => by rw [upperOf, if_pos (plain c member).1]
  rw [up, lower, lowerAfter_of_ascii, List.map_map]
  · exact (List.map_congr_left fun c member => (capital c member).2).trans (List.map_id s)
  · intro d member
    obtain ⟨c, listed, rfl⟩ := List.mem_map.mp member
    exact (capital c listed).1

end FileQuery.Text

namespace FileQuery.Config

open Json (Value)
open Text (IsPlainLower)

/-! ## Well-named trees -/

/-- Neither of two keys begins with the parts of the other. -/
def Apart (k k' : String) : Prop := ¬ keyParts k <+: keyParts k' ∧ ¬ keyParts k' <+: keyParts k
  deriving Decidable

instance : Std.Symm Apart := ⟨fun _ _ => And.symm⟩

/-- Keys of one section that can be told apart by the parts in front of a name. -/
structure NamedKeys (keys : List String) : Prop where
  nonempty : ∀ key ∈ keys, key ≠ ""
  plain : ∀ key ∈ keys, ∀ c ∈ key.toList, IsPlainLower c
  apart : keys.Pairwise Apart

/-- The keys of every section can be told apart. -/
def WellNamed (c : Section) : Prop :=
  ∀ path keys, nodeAt? path (.object c) = some (.branch keys) → NamedKeys keys

section WellNamed
variable {path : List String} {key : String} {node : Node} {c es : Section}

theorem WellNamed.keys (named : WellNamed c) : NamedKeys (c.map Prod.fst) := named [] _ rfl

theorem WellNamed.within (named : WellNamed c) (opens : c.lookup key = some (.object es)) :
    WellNamed es := fun path keys branch =>
  named (key :: path) keys ((nodeAt?_cons_of_lookup opens path).trans branch)

theorem wellNamed_of_sections (keys : NamedKeys (c.map Prod.fst))
    (inner : ∀ key es, (key, Value.object es) ∈ c → WellNamed es) : WellNamed c := by
  intro path keys' branch
  cases path with
  | nil =>
      obtain rfl := Node.branch.inj (Option.some.inj branch)
      exact keys
  | cons key path =>
      rw [nodeAt?] at branch
      obtain ⟨v, found, stands⟩ := Option.bind_eq_some_iff.mp branch
      cases v with
      | object es =>
          obtain ⟨front, back, same, -⟩ := List.lookup_eq_some_iff.mp found
          exact inner key es (same ▸ by simp) path keys' stands
      | _ => cases path <;> cases stands

/-- A key of the section is the best one for whatever its parts stand in front of. -/
theorem NamedKeys.bestKey?_eq (named : NamedKeys (c.map Prod.fst)) (member : key ∈ c.map Prod.fst)
    (rest : List (List Char)) : bestKey? (keyParts key ++ rest) c = some key := by
  cases best : bestKey? (keyParts key ++ rest) c with
  | none => exact absurd (List.prefix_append _ _) (bestKey?_eq_none best member)
  | some other =>
      obtain ⟨listed, front⟩ := bestKey?_eq_some best
      by_contra ne
      have apart := named.apart.forall listed member fun same => ne (congrArg some same)
      rcases List.prefix_or_prefix_of_prefix front (List.prefix_append (keyParts key) rest) with
        before | behind
      · exact apart.1 before
      · exact apart.2 behind

theorem nodeAt?_cons_eq_some (stands : nodeAt? (key :: path) (.object c) = some node) :
    key ∈ c.map Prod.fst ∧ (path ≠ [] → ∃ es, c.lookup key = some (.object es) ∧
      nodeAt? path (.object es) = some node) := by
  rw [nodeAt?] at stands
  obtain ⟨v, found, below⟩ := Option.bind_eq_some_iff.mp stands
  constructor
  · obtain ⟨front, back, same, -⟩ := List.lookup_eq_some_iff.mp found
    simp [same]
  · intro more
    cases v with
    | object es => exact ⟨es, found, below⟩
    | _ =>
        obtain ⟨next, path, rfl⟩ := List.exists_cons_of_ne_nil more
        cases below

theorem WellNamed.leads (named : WellNamed c) (nonempty : path ≠ [])
    (stands : nodeAt? path (.object c) = some node) : Leads (path.flatMap keyParts) c path := by
  induction path generalizing c with
  | nil => exact absurd rfl nonempty
  | cons key path ih =>
      obtain ⟨member, below⟩ := nodeAt?_cons_eq_some stands
      have best := named.keys.bestKey?_eq member (path.flatMap keyParts)
      have spelled := named.keys.nonempty key member
      by_cases last : path = []
      · subst last
        exact .entry best spelled (List.append_nil _)
      · obtain ⟨es, opens, inside⟩ := below last
        obtain ⟨next, rest, rfl⟩ := List.exists_cons_of_ne_nil last
        have more : (next :: rest).flatMap keyParts ≠ [] := by
          simp [keyParts, nameParts_ne_nil]
        exact .within best spelled rfl more opens (ih (named.within opens) last inside)

theorem WellNamed.plain (named : WellNamed c) (stands : nodeAt? path (.object c) = some node) :
    ∀ ch ∈ joined path, IsPlainLower ch := by
  induction path generalizing c with
  | nil => simp [joined]
  | cons key path ih =>
      obtain ⟨member, below⟩ := nodeAt?_cons_eq_some stands
      have first := named.keys.plain key member
      cases path with
      | nil => simpa [joined] using first
      | cons next path =>
          obtain ⟨es, opens, inside⟩ := below (List.cons_ne_nil _ _)
          have rest := ih (named.within opens) inside
          rw [joined_cons_cons]
          intro ch listed
          rcases List.mem_append.mp listed with here | behind
          · exact first ch here
          · rcases List.mem_cons.mp behind with rfl | there
            · decide
            · exact rest ch there

end WellNamed

/-! ## Names of variables -/

/-- The variable that names a path: the mark of settings and the path in capitals. -/
def variableOf (path : List String) : String :=
  variableMark ++ String.ofList (Text.upper (joined path))

theorem settingParts?_of_suffix {suffix : String} (other : variableMark ++ suffix ≠ fileVariable) :
    settingParts? (variableMark ++ suffix) = some (nameParts (Text.lower suffix.toList)) := by
  have front : variableMark.toList.isPrefixOf (variableMark ++ suffix).toList = true := by
    rw [String.toList_append, List.isPrefixOf_iff_prefix]
    exact List.prefix_append _ _
  have behind : (variableMark ++ suffix).toList.drop variableMark.length = suffix.toList := by
    rw [String.toList_append, ← String.length_toList, List.drop_left]
  rw [settingParts?, front, behind, Bool.true_and, if_pos (bne_iff_ne.mpr other)]

theorem joined_eq_config {path : List String} (nonempty : path ≠ [])
    (same : joined path = "config".toList) : path = ["config"] := by
  cases path with
  | nil => exact absurd rfl nonempty
  | cons key path =>
      cases path with
      | nil =>
          rw [joined, List.map_singleton, List.intercalate_singleton] at same
          rw [String.toList_injective same]
      | cons next path =>
          have mark : '_' ∈ "config".toList := by
            rw [← same, joined_cons_cons]
            simp
          exact absurd mark (by decide)

/-- The variable of a path is a setting with just the parts of the keys, unless it is the one that
names the configuration file. -/
theorem settingParts?_variableOf {path : List String} (nonempty : path ≠ [])
    (plain : ∀ c ∈ joined path, IsPlainLower c) (other : path ≠ ["config"]) :
    settingParts? (variableOf path) = some (path.flatMap keyParts) := by
  have back : Text.lower (String.ofList (Text.upper (joined path))).toList = joined path := by
    rw [String.toList_ofList, Text.lower_upper plain]
  rw [variableOf, settingParts?_of_suffix, back, nameParts_joined nonempty]
  intro same
  have mark : fileVariable = variableMark ++ "CONFIG" := rfl
  rw [mark, String.append_right_inj] at same
  rw [same] at back
  exact other (joined_eq_config nonempty back.symm)

theorem applyVariables_singleton {name text : String} {parts : List (List Char)} {v : Value}
    (setting : settingParts? name = some parts) (value : valueOfText text = .ok v) (c : Section) :
    applyVariables [(name, text)] c = .ok (assign v parts c) := by
  rw [applyVariables_eq_ok_iff, List.forall_mem_singleton, List.foldl_cons, List.foldl_nil]
  exact ⟨fun _ => exists_valueOfText_iff.mp ⟨v, value⟩,
    effect_of_setting (x := (name, text)) setting value⟩

/-- In a well-named tree the variable of an entry sets this entry to the value of its text, and every
other entry, every key and the order of keys are as they were; only an entry `config` at the top has
no variable. A variable whose name spells no path at all changes nothing. -/
theorem entry_addressed {c : Section} (named : WellNamed c) :
    (∀ path old text v, nodeAt? path (.object c) = some (.leaf old) → path ≠ ["config"] →
      valueOfText text = .ok v →
      ∃ c', applyVariables [(variableOf path, text)] c = .ok c' ∧
        ∀ q, nodeAt? q (.object c') = if q = path then some (.leaf v) else nodeAt? q (.object c)) ∧
    (∀ suffix text v,
      (∀ path node, path ≠ [] → nodeAt? path (.object c) = some node →
        joined path ≠ Text.lower suffix.toList) →
      valueOfText text = .ok v → applyVariables [(variableMark ++ suffix, text)] c = .ok c) := by
  constructor
  · intro path old text v stood other value
    have nonempty : path ≠ [] := by
      rintro rfl
      cases stood
    have setting := settingParts?_variableOf nonempty (named.plain stood) other
    refine ⟨_, applyVariables_singleton setting value c, ?_⟩
    exact nodeAt?_assign_of_leaf (named.leads nonempty stood) (isLeaf_of_valueOfText value) stood
  · intro suffix text v unspelled value
    by_cases file : variableMark ++ suffix = fileVariable
    · rw [file]
      rfl
    · rw [applyVariables_singleton (settingParts?_of_suffix file) value, assign_of_astray]
      intro path leads
      obtain ⟨node, stands⟩ := leads.exists_nodeAt?
      refine unspelled path node leads.path_ne_nil stands (nameParts_injective ?_)
      rw [nameParts_joined leads.path_ne_nil, leads.parts_eq]

theorem wellNamed_defaults : WellNamed defaults := by
  have flat {c : Section} (keys : NamedKeys (c.map Prod.fst))
      (leaves : ∀ e ∈ c, ∀ es, e.2 ≠ .object es) : WellNamed c :=
    wellNamed_of_sections keys fun key es member => absurd rfl (leaves (key, .object es) member es)
  refine wellNamed_of_sections ⟨by decide, by decide, by decide⟩ fun key es member => ?_
  simp only [defaults, List.mem_cons, Prod.mk.injEq, Value.object.injEq, List.not_mem_nil,
    or_false] at member
  rcases member with ⟨-, rfl⟩ | ⟨-, rfl⟩ | ⟨-, rfl⟩ | ⟨-, rfl⟩ <;>
    exact flat ⟨by decide, by decide, by decide⟩ (by simp)

theorem entry_addressed_by_limit :
    WellNamed defaults ∧
    (∃ c', applyVariables [("FILANG_QUERY_CONTENT_SIZE_LIMIT", "2048")] defaults = .ok c' ∧
      ∀ q, nodeAt? q (.object c') =
        if q = ["query", "content_size_limit"] then some (.leaf (.int 2048))
        else nodeAt? q (.object defaults)) ∧
    applyVariables [("FILANG_NOPE_THING", "1")] defaults = .ok defaults := by
  have name : variableOf ["query", "content_size_limit"] = "FILANG_QUERY_CONTENT_SIZE_LIMIT" := by
    decide
  obtain ⟨sets, keeps⟩ := entry_addressed wellNamed_defaults
  refine ⟨wellNamed_defaults, ?_,
    keeps "NOPE_THING" "1" (.int 1) (fun path node nonempty stands => ?_) rfl⟩
  · rw [← name]
    exact sets ["query", "content_size_limit"] _ "2048" (.int 2048) rfl (by decide) rfl
  · obtain ⟨key, path, rfl⟩ := List.exists_cons_of_ne_nil nonempty
    have others : ∀ key ∈ defaults.map Prod.fst,
        ¬ key.toList <+: Text.lower "NOPE_THING".toList := by
      decide
    intro same
    exact others key (nodeAt?_cons_eq_some stands).1 (same ▸ prefix_joined key path)

end FileQuery.Config
