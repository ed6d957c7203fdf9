import FileQuery.Config.Settings
import FileQuery.Proofs.Config.Environment

/-! # The shape that variables leave

Variables keep the key paths and the sections of a configuration exactly when none of them leads to
a section (`shape_kept_iff`): one that does puts its value in the place of all that is below. Which
path a name leads along is a matter of shape alone (`Leads.of_sameShape`), so it makes no difference
what the variables before it have changed. -/
set_option autoImplicit false
namespace FileQuery.Config

open Json (Value)

/-! ## Trees of the same shape -/

/-- The keys of a section; none of another value. -/
def Node.keys? : Node → Option (List String)
  | branch keys => some keys
  | leaf _ => none

/-- The same paths lead to sections with the same keys, and to other values. -/
def SameShape (c d : Section) : Prop :=
  ∀ path, (nodeAt? path (.object c)).map Node.keys? = (nodeAt? path (.object d)).map Node.keys?

section SameShape
variable {parts : List (List Char)} {path : List String} {key : String} {v : Value}
  {c d es : Section}

theorem SameShape.branch_iff (same : SameShape c d) (path keys : List String) :
    nodeAt? path (.object c) = some (.branch keys) ↔
      nodeAt? path (.object d) = some (.branch keys) := by
  have here (n : Option Node) : n = some (.branch keys) ↔ n.map Node.keys? = some (some keys) := by
    cases n with
    | none => simp
    | some n => cases n <;> simp [Node.keys?]
  rw [here, here, same path]

theorem SameShape.keys_eq (same : SameShape c d) : c.map Prod.fst = d.map Prod.fst := by
  have root := same.branch_iff [] (c.map Prod.fst)
  simpa [nodeAt?, eq_comm] using root

theorem SameShape.within (same : SameShape c d) (opens : c.lookup key = some (.object es)) :
    ∃ es', d.lookup key = some (.object es') ∧ SameShape es es' := by
  have inside := nodeAt?_cons_of_lookup opens
  have branch := same.branch_iff [key] (es.map Prod.fst)
  rw [inside, nodeAt?, eq_self, true_iff, nodeAt?] at branch
  obtain ⟨v, found, stands⟩ := Option.bind_eq_some_iff.mp branch
  cases v with
  | object es' =>
      refine ⟨es', found, fun path => ?_⟩
      rw [← inside path, same (key :: path), nodeAt?_cons_of_lookup found]
  | _ => cases stands

theorem Leads.of_sameShape (leads : Leads parts c path) : ∀ {d : Section}, SameShape c d →
    Leads parts d path := by
  induction leads with
  | entry best named all =>
      intro d same
      exact .entry (bestKey?_congr same.keys_eq ▸ best) named all
  | within best named cut more opens leads ih =>
      intro d same
      obtain ⟨es', found, inner⟩ := same.within opens
      exact .within (bestKey?_congr same.keys_eq ▸ best) named cut more found (ih inner)

theorem sameShape_assign (leaf : IsLeaf v)
    (calm : ∀ path keys, Leads parts c path → nodeAt? path (.object c) ≠ some (.branch keys)) :
    SameShape c (assign v parts c) := by
  intro q
  by_cases astray : ∀ path, ¬ Leads parts c path
  · rw [assign_of_astray astray]
  · push Not at astray
    obtain ⟨path, leads⟩ := astray
    obtain ⟨node, stood⟩ := leads.exists_nodeAt?
    cases node with
    | branch keys => exact absurd stood (calm path keys leads)
    | leaf old =>
        rw [nodeAt?_assign_of_leaf leads leaf stood]
        split
        · next same => rw [same, stood]; rfl
        · rfl

theorem branch_of_assign (leaf : IsLeaf v) {keys : List String}
    (branch : nodeAt? path (.object (assign v parts c)) = some (.branch keys)) :
    nodeAt? path (.object c) = some (.branch keys) := by
  by_cases astray : ∀ path, ¬ Leads parts c path
  · rwa [assign_of_astray astray] at branch
  · push Not at astray
    obtain ⟨target, leads⟩ := astray
    rw [nodeAt?_assign leads leaf] at branch
    split at branch
    · cases branch
    · split at branch
      · cases branch
      · exact branch

end SameShape

/-! ## Variables that lead to a section -/

def LeadsToSection (name : String) (c : Section) : Prop :=
  ∃ parts path keys, settingParts? name = some parts ∧ Leads parts c path ∧
    nodeAt? path (.object c) = some (.branch keys)

section Run
variable {env : Variables} {x : String × String} {c d : Section}

theorem LeadsToSection.of_sameShape {name : String} (leads : LeadsToSection name c)
    (same : SameShape c d) : LeadsToSection name d := by
  obtain ⟨parts, path, keys, setting, along, branch⟩ := leads
  exact ⟨parts, path, keys, setting, along.of_sameShape same, (same.branch_iff path keys).mp branch⟩

theorem sameShape_effect (calm : ¬ LeadsToSection x.1 c) : SameShape c (effect c x) := by
  rcases effect_cases x with ⟨-, idle⟩ | ⟨parts, v, setting, leaf, puts⟩
  · rw [idle]
    exact fun _ => rfl
  · rw [puts]
    exact sameShape_assign leaf fun path keys leads branch =>
      calm ⟨parts, path, keys, setting, leads, branch⟩

theorem sameShape_foldl : ∀ {c : Section}, (∀ x ∈ env, ¬ LeadsToSection x.1 c) →
    SameShape c (env.foldl effect c) := by
  induction env with
  | nil => exact fun _ _ => rfl
  | cons x env ih =>
      intro c calm
      have step := sameShape_effect (calm x List.mem_cons_self)
      have rest : ∀ y ∈ env, ¬ LeadsToSection y.1 (effect c x) := fun y member leads =>
        calm y (List.mem_cons_of_mem _ member) (leads.of_sameShape fun path => (step path).symm)
      exact fun path => (step path).trans (ih rest path)

theorem branch_of_foldl {path keys : List String} :
    ∀ {c : Section}, nodeAt? path (.object (env.foldl effect c)) = some (.branch keys) →
      nodeAt? path (.object c) = some (.branch keys) := by
  induction env with
  | nil => exact id
  | cons x env ih =>
      intro c branch
      have step := ih branch
      rcases effect_cases x with ⟨-, idle⟩ | ⟨parts, v, -, leaf, puts⟩
      · rwa [idle] at step
      · rw [puts] at step
        exact branch_of_assign leaf step

/-- The first variable that leads to a section puts an end to it, and nothing brings it back. -/
theorem section_lost (readable : ∀ x ∈ env, Readable x) :
    ∀ {c : Section}, (∃ x ∈ env, LeadsToSection x.1 c) →
      ∃ path keys, nodeAt? path (.object c) = some (.branch keys) ∧
        ∀ keys', nodeAt? path (.object (env.foldl effect c)) ≠ some (.branch keys') := by
  induction env with
  | nil => simp
  | cons x env ih =>
      rintro c ⟨y, member, leads⟩
      obtain ⟨first, others⟩ := List.forall_mem_cons.mp readable
      by_cases hit : LeadsToSection x.1 c
      · obtain ⟨parts, path, keys, setting, along, branch⟩ := hit
        refine ⟨path, keys, branch, fun keys' still => ?_⟩
        have put : nodeAt? path (.object (effect c x)) = some (.branch keys') :=
          branch_of_foldl still
        rcases effect_cases x with ⟨other, -⟩ | ⟨parts', v, setting', leaf, puts⟩
        · cases setting.symm.trans (other first)
        · obtain rfl := Option.some.inj (setting.symm.trans setting')
          rw [puts, nodeAt?_assign along leaf, if_pos rfl] at put
          cases put
      · have step := sameShape_effect hit
        have later : y ∈ env := by
          rcases List.mem_cons.mp member with rfl | later
          · exact absurd leads hit
          · exact later
        obtain ⟨path, keys, branch, lost⟩ := ih others ⟨y, later, leads.of_sameShape step⟩
        exact ⟨path, keys, (step.branch_iff path keys).mpr branch, lost⟩

end Run

/-- No key is added or lost at any level, and every section is still one. -/
structure KeepsShape (c c' : Section) : Prop where
  paths : ∀ path, (nodeAt? path (.object c')).isSome = (nodeAt? path (.object c)).isSome
  sections : ∀ path keys, nodeAt? path (.object c) = some (.branch keys) →
    ∃ keys', nodeAt? path (.object c') = some (.branch keys')

theorem SameShape.keepsShape {c d : Section} (same : SameShape c d) : KeepsShape c d where
  paths path := by
    rw [← Option.isSome_map (f := Node.keys?), ← same path, Option.isSome_map]
  sections path keys branch := ⟨keys, (same.branch_iff path keys).mp branch⟩

/-- An entry can be asked for where there is no value in the place of its section. -/
theorem setting?_isOk_iff {c : Section} {name key : String} :
    (setting? c name key).isOk ↔ ∀ v, nodeAt? [name] (.object c) ≠ some (.leaf v) := by
  rw [setting?, nodeAt?]
  cases c.lookup name with
  | none => simp [Except.isOk, Except.toBool]
  | some v => cases v <;> simp [nodeAt?, entry?, Except.isOk, Except.toBool]

theorem KeepsShape.setting?_isOk {c c' : Section} (kept : KeepsShape c c') {name key : String}
    (readable : (setting? c name key).isOk) : (setting? c' name key).isOk := by
  rw [setting?_isOk_iff] at readable ⊢
  intro v stands
  have there := kept.paths [name]
  rw [stands, Option.isSome_some, eq_comm, Option.isSome_iff_exists] at there
  obtain ⟨node, stood⟩ := there
  cases node with
  | leaf old => exact readable old stood
  | branch keys =>
      obtain ⟨keys', still⟩ := kept.sections [name] keys stood
      rw [stands] at still
      cases still

/-- Variables keep the shape of a configuration exactly when none of them leads to a section; what
entries could be asked for before can be asked for then. -/
theorem shape_kept_iff {env : Variables} {c c' : Section}
    (applied : applyVariables env c = .ok c') :
    (KeepsShape c c' ↔ ∀ x ∈ env, ¬ LeadsToSection x.1 c) ∧
    (KeepsShape c c' → ∀ name key, (setting? c name key).isOk → (setting? c' name key).isOk) := by
  obtain ⟨readable, rfl⟩ := applyVariables_eq_ok_iff.mp applied
  refine ⟨⟨fun kept => ?_, fun calm => (sameShape_foldl calm).keepsShape⟩,
    fun kept _ _ => kept.setting?_isOk⟩
  by_contra hit
  push Not at hit
  obtain ⟨path, keys, branch, lost⟩ := section_lost readable hit
  obtain ⟨keys', still⟩ := kept.sections path keys branch
  exact lost keys' still

/-- The defaults with another level of logging. -/
def levelled (level : String) : Section :=
  defaults.dropLast ++ [("logging", .object
    [("level", .string level), ("format", .string "[%(levelname)s] %(message)s")])]

theorem shape_kept_by_level :
    applyVariables [("FILANG_LOGGING_LEVEL", "DEBUG")] defaults = .ok (levelled "DEBUG") ∧
      KeepsShape defaults (levelled "DEBUG") := by
  have applied : applyVariables [("FILANG_LOGGING_LEVEL", "DEBUG")] defaults =
      .ok (levelled "DEBUG") := rfl
  refine ⟨applied, (shape_kept_iff applied).1.mpr ?_⟩
  rintro x member ⟨parts, path, keys, setting, leads, branch⟩
  obtain rfl := List.mem_singleton.mp member
  obtain rfl : nameParts "logging_level".toList = parts := Option.some.inj setting
  have cut : nameParts "logging_level".toList = keyParts "logging" ++ keyParts "level" := rfl
  have along : Leads (nameParts "logging_level".toList) defaults ["logging", "level"] :=
    .within rfl (by decide) cut (by decide) rfl (.entry rfl (by decide) rfl)
  rw [leads.unique along] at branch
  cases branch

/-- A variable that names a section puts its value in the place of all the entries there, and they
cannot be asked for any more. -/
theorem section_overwritten :
    applyVariables [("FILANG_GENERAL", "5")] defaults =
        .ok (("general", .int 5) :: defaults.tail) ∧
      ¬ KeepsShape defaults (("general", .int 5) :: defaults.tail) ∧
      setting? (("general", .int 5) :: defaults.tail) "general" "start_directory" =
        .error (.noMember "'int' object has no attribute 'get'") := by
  refine ⟨rfl, fun kept => ?_, rfl⟩
  obtain ⟨keys, branch⟩ := kept.sections ["general"] ["start_directory", "max_load_depth"] rfl
  cases branch

end FileQuery.Config
