import FileQuery.Proofs.Config.Environment
import Mathlib.Data.List.Pairwise

/-! # Variables in any order

Values that different parts put in place do not disturb each other (`assign_comm`), not even where
one takes the place of the section that the other leads into: what was put in there before is lost,
and what comes later finds no way in. So variables of different names give one configuration in every
order (`applyVariables_perm`). -/
set_option autoImplicit false
namespace FileQuery.Config

open Json (Value)

/-- Values under one key do not disturb each other if what is left of their parts differs, and none
is a section. -/
theorem entered_comm {v w : Value} {key : String} {left right : List (List Char)} (leafV : IsLeaf v)
    (leafW : IsLeaf w) (ne : left ≠ right) {old : Value}
    (inside : ∀ es, old = .object es →
      assign v left (assign w right es) = assign w right (assign v left es)) :
    entered v key left (entered w key right old) = entered w key right (entered v key left old) := by
  by_cases named : key = ""
  · simp [entered, named]
  by_cases first : left = []
  · -- the value takes the whole entry, whether the other was put below it before or finds it after
    subst first
    rw [entered_of_isEmpty named, entered_of_isEmpty named, entered_of_ne_nil named (Ne.symm ne),
      assignBelow_of_isLeaf leafV]
  by_cases second : right = []
  · subst second
    rw [entered_of_isEmpty named, entered_of_isEmpty named, entered_of_ne_nil named first,
      assignBelow_of_isLeaf leafW]
  simp only [entered_of_ne_nil named first, entered_of_ne_nil named second]
  by_cases leaf : IsLeaf old
  · simp only [assignBelow_of_isLeaf leaf]
  · obtain ⟨es, rfl⟩ := by simpa [IsLeaf] using leaf
    simp only [assignBelow_object, inside es rfl]

theorem assign_comm {v w : Value} (leafV : IsLeaf v) (leafW : IsLeaf w) :
    ∀ {parts : List (List Char)} {c : Section} {others : List (List Char)}, parts ≠ others →
      assign v parts (assign w others c) = assign w others (assign v parts c) := by
  intro parts c
  induction parts, c using parts_induction with
  | step parts c ih =>
      intro others ne
      -- the best keys are those of the section as it was, since its keys stay
      have kept (u : Value) (ps qs : List (List Char)) : bestKey? ps (assign u qs c) = bestKey? ps c :=
        bestKey?_congr (keys_assign u qs c)
      cases best : bestKey? parts c with
      | none =>
          rw [assign_of_bestKey?_eq_none best,
            assign_of_bestKey?_eq_none ((kept w parts others).trans best)]
      | some key =>
          cases best' : bestKey? others c with
          | none =>
              rw [assign_of_bestKey?_eq_none best',
                assign_of_bestKey?_eq_none ((kept v others parts).trans best')]
          | some key' =>
              obtain ⟨_, left, -, cut⟩ := exists_of_bestKey? best
              obtain ⟨_, right, -, cut'⟩ := exists_of_bestKey? best'
              rw [assign_of_bestKey? ((kept w parts others).trans best) cut,
                assign_of_bestKey? ((kept v others parts).trans best') cut',
                assign_of_bestKey? best cut, assign_of_bestKey? best' cut']
              by_cases same : key = key'
              · subst same
                have ne' : left ≠ right := by
                  rintro rfl
                  exact ne (cut.trans cut'.symm)
                rw [alter_alter, alter_alter]
                refine alter_congr fun old found => entered_comm leafV leafW ne' ?_
                rintro es rfl
                exact ih key left es cut found ne'
              · exact alter_comm same

/-! ## Names of settings -/

/-- What a variable's name has behind the mark of settings, in lower case. -/
def suffix? (name : String) : Option (List Char) :=
  if variableMark.toList.isPrefixOf name.toList && name != fileVariable then
    some (Text.lower (name.toList.drop variableMark.length))
  else none

theorem settingParts?_eq_map (name : String) : settingParts? name = (suffix? name).map nameParts := by
  rw [settingParts?, suffix?]
  split <;> rfl

/-- No two settings have the same suffix, in lower case. -/
def DistinctSettings (env : Variables) : Prop := (env.filterMap fun x => suffix? x.1).Nodup

theorem effect_comm {x y : String × String} (c : Section)
    (ne : ∀ suffix, suffix? x.1 = some suffix → suffix? y.1 ≠ some suffix) :
    effect (effect c x) y = effect (effect c y) x := by
  rcases effect_cases x with ⟨-, idle⟩ | ⟨parts, v, setting, leafV, puts⟩
  · rw [idle, idle]
  rcases effect_cases y with ⟨-, idle⟩ | ⟨others, w, setting', leafW, puts'⟩
  · rw [idle, idle]
  rw [puts, puts, puts', puts', assign_comm leafW leafV]
  rintro rfl
  rw [settingParts?_eq_map, Option.map_eq_some_iff] at setting setting'
  obtain ⟨suffix, found, rfl⟩ := setting
  obtain ⟨suffix', found', same⟩ := setting'
  rw [nameParts_injective same] at found'
  exact ne suffix found found'

/-- Variables whose texts all stand for values, and no two of which are one setting, give the same
configuration in every order. -/
theorem applyVariables_perm {env env' : Variables} (perm : env.Perm env')
    (readable : ∀ x ∈ env, Readable x) (distinct : DistinctSettings env) (c : Section) :
    ∃ c', applyVariables env c = .ok c' ∧ applyVariables env' c = .ok c' := by
  have readable' : ∀ x ∈ env', Readable x := fun x member => readable x (perm.mem_iff.mpr member)
  have apart : env.Pairwise fun x y =>
      ∀ suffix, suffix? x.1 = some suffix → suffix? y.1 ≠ some suffix :=
    (List.pairwise_filterMap.mp distinct).imp fun other suffix found found' =>
      other suffix found suffix found' rfl
  have symmetric : Std.Symm fun x y : String × String =>
      ∀ suffix, suffix? x.1 = some suffix → suffix? y.1 ≠ some suffix :=
    ⟨fun _ _ other suffix found found' => other suffix found' found⟩
  have same : env.foldl effect c = env'.foldl effect c := by
    refine perm.foldl_eq' (fun x member y member' c => ?_) c
    by_cases one : x = y
    · rw [one]
    · exact effect_comm c (apart.forall member member' one)
  exact ⟨_, applyVariables_eq_ok_iff.mpr ⟨readable, rfl⟩,
    applyVariables_eq_ok_iff.mpr ⟨readable', same.symm⟩⟩

theorem section_and_entry_in_any_order :
    DistinctSettings [("FILANG_GENERAL", "x"), ("FILANG_GENERAL_MAX_LOAD_DEPTH", "5")] ∧
    ∃ c,
      applyVariables [("FILANG_GENERAL", "x"), ("FILANG_GENERAL_MAX_LOAD_DEPTH", "5")] defaults =
        .ok c ∧
      applyVariables [("FILANG_GENERAL_MAX_LOAD_DEPTH", "5"), ("FILANG_GENERAL", "x")] defaults =
        .ok c := by
  have distinct :
      DistinctSettings [("FILANG_GENERAL", "x"), ("FILANG_GENERAL_MAX_LOAD_DEPTH", "5")] := by
    rw [DistinctSettings]
    decide
  exact ⟨distinct, applyVariables_perm (.swap _ _ _) (by decide) distinct defaults⟩

end FileQuery.Config
