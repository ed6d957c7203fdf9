import FileQuery.Config.File
import FileQuery.Libraries.Standard
import FileQuery.Proofs.Config.Walk
import FileQuery.Proofs.Except
import FileQuery.Proofs.Text.Digit

/-! # When variables can be applied

Variables are applied one after the other (`applyVariables_eq_ok_iff`), and all that may stop this is
a setting of nothing but digit signs that is no integer. A configuration is loaded exactly when there
is no such setting, the configuration file can be looked for, and no setting comes to a section of it
with a key that is no text (`overrides_return_iff`). -/
set_option autoImplicit false
namespace FileQuery.Config

open Json (Value)
open Text (isDigitSign digitValue? maxDecimalDigits)

/-! ## Values of texts -/

/-- If there is nothing but digit signs in a text, they are decimal digits and not too many. -/
def Converts (text : String) : Prop :=
  text ≠ "" → (∀ c ∈ text.toList, isDigitSign c = true) →
    (∀ c ∈ text.toList, (digitValue? c).isSome) ∧ text.toList.length ≤ maxDecimalDigits

instance (text : String) : Decidable (Converts text) :=
  have := List.decidableBAll (fun c => isDigitSign c = true) text.toList
  have := List.decidableBAll (fun c => (digitValue? c).isSome = true) text.toList
  inferInstanceAs (Decidable (_ → _ → _ ∧ _))

theorem truth_words_have_letters :
    ∀ word ∈ ["true", "yes", "on"] ++ ["false", "no", "off"],
      word.toList.all isDigitSign = false := by
  decide

theorem not_truth_word {text word : String} (signs : ∀ c ∈ text.toList, isDigitSign c = true)
    (listed : word ∈ ["true", "yes", "on"] ++ ["false", "no", "off"]) :
    String.ofList (Text.lower text.toList) ≠ word := by
  have low : Text.lower text.toList = text.toList :=
    Text.lowerAfter_eq_self (fun c member => Text.lowered_of_isDigitSign (signs c member)) []
  rw [low, String.ofList_toList]
  rintro rfl
  have letters := truth_words_have_letters text listed
  rw [List.all_eq_true.mpr signs] at letters
  cases letters

theorem valueOfText_of_signs {text : String} (nonempty : text ≠ "")
    (signs : ∀ c ∈ text.toList, isDigitSign c = true) :
    (∃ v, valueOfText text = .ok v) ↔ (Text.readDecimal text.toList).isOk := by
  have yes : ["true", "yes", "on"].contains (String.ofList (Text.lower text.toList)) = false := by
    rw [← Bool.not_eq_true, List.contains_iff_mem]
    exact fun listed => not_truth_word signs (List.mem_append_left _ listed) rfl
  have no : ["false", "no", "off"].contains (String.ofList (Text.lower text.toList)) = false := by
    rw [← Bool.not_eq_true, List.contains_iff_mem]
    exact fun listed => not_truth_word signs (List.mem_append_right _ listed) rfl
  have digits : (!text.toList.isEmpty && text.toList.all isDigitSign) = true := by
    rw [Bool.and_eq_true, List.all_eq_true]
    exact ⟨by simpa using nonempty, signs⟩
  simp only [valueOfText, yes, no, digits, Bool.false_eq_true, if_false, if_true]
  cases Text.readDecimal text.toList with
  | ok n => simp [Except.isOk, Except.toBool]
  | error e => cases e <;> simp [Except.isOk, Except.toBool]

/-- A text stands for a value unless it is one of digit signs that are no integer. -/
theorem exists_valueOfText_iff {text : String} :
    (∃ v, valueOfText text = .ok v) ↔ Converts text := by
  by_cases digits : text ≠ "" ∧ ∀ c ∈ text.toList, isDigitSign c = true
  · obtain ⟨nonempty, signs⟩ := digits
    rw [valueOfText_of_signs nonempty signs,
      Text.readDecimal_isOk_iff signs (by simpa using nonempty)]
    exact ⟨fun read _ _ => read, fun converts => converts nonempty signs⟩
  · refine ⟨fun _ nonempty signs => absurd ⟨nonempty, signs⟩ digits, fun _ => ?_⟩
    have other : (!text.toList.isEmpty && text.toList.all isDigitSign) = false := by
      rw [← Bool.not_eq_true, Bool.and_eq_true, List.all_eq_true]
      exact fun both => digits ⟨by simpa using both.1, both.2⟩
    rw [valueOfText]
    split
    · exact ⟨_, rfl⟩
    · split
      · exact ⟨_, rfl⟩
      · rw [other]
        exact ⟨_, rfl⟩

theorem isLeaf_of_valueOfText {text : String} {v : Value} (value : valueOfText text = .ok v) :
    IsLeaf v := by
  rintro es rfl
  rw [valueOfText] at value
  split at value
  · cases value
  · split at value
    · cases value
    · split at value
      · split at value <;> cases value
      · cases value

/-! ## A run over the variables -/

/-- A variable that is a setting has a text that stands for a value. -/
def Readable (x : String × String) : Prop := settingParts? x.1 ≠ none → Converts x.2

instance (x : String × String) : Decidable (Readable x) :=
  inferInstanceAs (Decidable (_ → _))

def effect (c : Section) (x : String × String) : Section :=
  match settingParts? x.1, valueOfText x.2 with
  | some parts, .ok v => assign v parts c
  | _, _ => c

section Run
variable {env : Variables} {x : String × String} {parts : List (List Char)} {v : Value}
  {c c' : Section}

theorem effect_of_setting (setting : settingParts? x.1 = some parts)
    (value : valueOfText x.2 = .ok v) : effect c x = assign v parts c := by
  rw [effect, setting, value]

theorem effect_of_other (other : settingParts? x.1 = none) : effect c x = c := by
  rw [effect, other]

/-- A variable changes no configuration, or puts the value of its text where its name leads. -/
theorem effect_cases (x : String × String) :
    ((Readable x → settingParts? x.1 = none) ∧ ∀ c, effect c x = c) ∨
      ∃ parts v, settingParts? x.1 = some parts ∧ IsLeaf v ∧ ∀ c, effect c x = assign v parts c := by
  cases setting : settingParts? x.1 with
  | none => exact .inl ⟨fun _ => rfl, fun c => effect_of_other setting⟩
  | some parts =>
      cases value : valueOfText x.2 with
      | ok v =>
          exact .inr ⟨parts, v, rfl, isLeaf_of_valueOfText value,
            fun c => effect_of_setting setting value⟩
      | error e =>
          refine .inl ⟨fun readable => ?_, fun c => by rw [effect, setting, value]⟩
          obtain ⟨v, other⟩ := exists_valueOfText_iff.mpr (readable (by simp [setting]))
          rw [value] at other
          cases other

theorem applyVariables_cons (x : String × String) (env : Variables) (c : Section) :
    applyVariables (x :: env) c = .ok c' ↔
      Readable x ∧ applyVariables env (effect c x) = .ok c' := by
  obtain ⟨name, text⟩ := x
  rw [applyVariables]
  cases setting : settingParts? name with
  | none =>
      rw [effect_of_other (x := (name, text)) setting]
      exact ⟨fun applied => ⟨fun some => absurd setting some, applied⟩, And.right⟩
  | some parts =>
      cases value : valueOfText text with
      | ok v =>
          have converts : Converts text := exists_valueOfText_iff.mp ⟨v, value⟩
          rw [effect_of_setting (x := (name, text)) setting value]
          exact ⟨fun applied => ⟨fun _ => converts, applied⟩, And.right⟩
      | error e =>
          refine ⟨fun applied => (nomatch applied), fun both => ?_⟩
          have some : settingParts? name ≠ none := setting ▸ Option.some_ne_none parts
          obtain ⟨v, other⟩ := exists_valueOfText_iff.mpr (both.1 some)
          rw [value] at other
          cases other

theorem applyVariables_eq_ok_iff :
    applyVariables env c = .ok c' ↔ (∀ x ∈ env, Readable x) ∧ env.foldl effect c = c' := by
  induction env generalizing c with
  | nil =>
      rw [applyVariables, List.foldl_nil, Except.ok.injEq]
      exact ⟨fun same => ⟨List.forall_mem_nil _, same⟩, And.right⟩
  | cons x env ih => rw [applyVariables_cons, ih, List.foldl_cons, List.forall_mem_cons, and_assoc]

end Run

theorem exists_applyVariables_iff {env : Variables} {c : Section} :
    (∃ c', applyVariables env c = .ok c') ↔ ∀ x ∈ env, Readable x := by
  simp only [applyVariables_eq_ok_iff, exists_and_left, exists_eq', and_true]

/-! ## Keys that are no texts -/

/-- Parts come to a section along a path of keys, at each section by the best key of what is left of
them. -/
inductive Comes : List (List Char) → Section → List String → Prop
  | here (parts : List (List Char)) (c : Section) : Comes parts c []
  | within {parts left : List (List Char)} {key : String} {c es : Section} {path : List String}
      (best : bestKey? parts c = some key) (named : key ≠ "") (cut : parts = keyParts key ++ left)
      (more : left ≠ []) (opens : c.lookup key = some (.object es)) (comes : Comes left es path) :
      Comes parts c (key :: path)

/-- A variable that is a setting comes to no section with a key that is no text. -/
def Passes (odd : OddKeys) (c : Section) (x : String × String) : Prop :=
  ∀ parts, settingParts? x.1 = some parts → ∀ path, Comes parts c path → odd.lookup path = none

/-- Each variable passes through what those before it have made of a configuration. -/
def Unhindered (odd : OddKeys) (c : Section) (env : Variables) : Prop :=
  ∀ before x after, env = before ++ x :: after → Passes odd (before.foldl effect c) x

section Ways
variable {parts left : List (List Char)} {key : String} {c c' : Section} {path : List String}
  {odd : OddKeys} {x : String × String} {env : Variables}

theorem waysAt_eq (key : String) (left : List (List Char)) (c : Section) :
    waysAt key left c =
      match c.lookup key with
      | some v => if key.isEmpty || left.isEmpty then [] else ways left v
      | none => [] := by
  induction c with
  | nil => rfl
  | cons e es ih =>
      obtain ⟨k, v⟩ := e
      rw [waysAt, List.lookup_cons]
      by_cases same : k = key
      · rw [if_pos same, same, beq_self_eq_true]
      · rw [if_neg same, beq_false_of_ne (Ne.symm same), ih]

theorem ways_of_isLeaf {v : Value} (leaf : IsLeaf v) : ways parts v = [] := by
  cases v with
  | object es => exact absurd rfl (leaf es)
  | _ => rfl

theorem mem_ways_cons (best : bestKey? parts c = some key) (cut : parts = keyParts key ++ left)
    (other : String) :
    other :: path ∈ ways parts (.object c) ↔
      other = key ∧ key ≠ "" ∧ left ≠ [] ∧
        ∃ es, c.lookup key = some (.object es) ∧ path ∈ ways left (.object es) := by
  have behind : parts.drop (keyParts key).length = left := by rw [cut, List.drop_left]
  obtain ⟨v, -, found, -⟩ := exists_of_bestKey? best
  rw [ways, best]
  simp only [behind, waysAt_eq, found, List.mem_cons, List.mem_map, reduceCtorEq, false_or,
    List.cons.injEq, exists_eq_right_right, Option.some.injEq]
  by_cases bare : key = "" ∨ left = []
  · rcases bare with rfl | rfl <;> simp
  · rw [not_or] at bare
    obtain ⟨named, more⟩ := bare
    by_cases leaf : IsLeaf v
    · simp [named, more, ways_of_isLeaf leaf, leaf _]
    · obtain ⟨es, rfl⟩ := by simpa [IsLeaf] using leaf
      simp only [String.isEmpty_iff, List.isEmpty_iff, named, more, Bool.or_eq_true, or_self,
        if_false, ne_eq, not_false_eq_true, true_and, Value.object.injEq, exists_eq_left']
      rw [and_comm, eq_comm]

theorem mem_ways_iff : path ∈ ways parts (.object c) ↔ Comes parts c path := by
  induction path generalizing parts c with
  | nil =>
      refine iff_of_true ?_ (.here parts c)
      rw [ways]
      split <;> exact List.mem_cons_self
  | cons other path ih =>
      cases best : bestKey? parts c with
      | none =>
          refine iff_of_false ?_ fun comes => ?_
          · simp [ways, best]
          · cases comes with
            | within best' => exact nomatch best.symm.trans best'
      | some key =>
          obtain ⟨_, left, -, cut⟩ := exists_of_bestKey? best
          rw [mem_ways_cons best cut]
          constructor
          · rintro ⟨rfl, named, more, es, opens, within⟩
            exact .within best named cut more opens (ih.mp within)
          · rintro (_ | ⟨best', named, cut', more, opens, comes⟩)
            obtain rfl := Option.some.inj (best.symm.trans best')
            obtain rfl := List.append_cancel_left (cut.symm.trans cut')
            exact ⟨rfl, named, more, _, opens, ih.mpr comes⟩

theorem passes_iff (setting : settingParts? x.1 = some parts) :
    Passes odd c x ↔ (ways parts (.object c)).findSome? (List.lookup · odd) = none := by
  rw [List.findSome?_eq_none_iff]
  constructor
  · exact fun passes path way => passes parts setting path (mem_ways_iff.mp way)
  · intro clear other setting' path comes
    obtain rfl := Option.some.inj (setting.symm.trans setting')
    exact clear path (mem_ways_iff.mpr comes)

theorem unhindered_cons :
    Unhindered odd c (x :: env) ↔ Passes odd c x ∧ Unhindered odd (effect c x) env := by
  constructor
  · intro free
    exact ⟨free [] x env rfl, fun before y after same =>
      free (x :: before) y after (by rw [same, List.cons_append])⟩
  · rintro ⟨passes, free⟩ (_ | ⟨first, before⟩) y after same
    · obtain ⟨rfl, -⟩ := List.cons.inj same
      exact passes
    · obtain ⟨rfl, rest⟩ := List.cons.inj same
      exact free before y after rest

/-- What one variable does in front of others to a configuration that has keys that are no texts. -/
theorem applyOver_cons :
    applyOver odd (x :: env) c = .ok c' ↔
      Readable x ∧ Passes odd c x ∧ applyOver odd env (effect c x) = .ok c' := by
  obtain ⟨name, text⟩ := x
  rw [applyOver]
  cases setting : settingParts? name with
  | none =>
      rw [effect_of_other (x := (name, text)) setting]
      refine ⟨fun applied => ⟨fun some => absurd setting some, ?_, applied⟩, fun all => all.2.2⟩
      exact fun parts some => nomatch setting.symm.trans some
  | some parts =>
      have readable : Readable (name, text) ↔ ∃ v, valueOfText text = .ok v := by
        rw [exists_valueOfText_iff]
        exact ⟨fun all => all (setting ▸ Option.some_ne_none parts), fun converts _ => converts⟩
      rw [readable, passes_iff (x := (name, text)) setting]
      cases value : valueOfText text with
      | error e => exact iff_of_false (fun applied => nomatch applied) fun all => nomatch all.1.choose_spec
      | ok v =>
          rw [effect_of_setting (x := (name, text)) setting value]
          simp only [Except.mapError, bind, Except.bind]
          cases hindrance : (ways parts (.object c)).findSome? fun way => odd.lookup way with
          | none => exact ⟨fun applied => ⟨⟨v, rfl⟩, rfl, applied⟩, fun all => all.2.2⟩
          | some f => exact iff_of_false (fun applied => nomatch applied) fun all => nomatch all.2.1

/-- Variables change a configuration one after the other, if each one stands for a value and comes
to no section with a key that is no text. -/
theorem applyOver_eq_ok_iff :
    applyOver odd env c = .ok c' ↔
      (∀ x ∈ env, Readable x) ∧ Unhindered odd c env ∧ env.foldl effect c = c' := by
  induction env generalizing c with
  | nil =>
      rw [applyOver, List.foldl_nil, Except.ok.injEq]
      refine ⟨fun same => ⟨List.forall_mem_nil _, fun before x after none => ?_, same⟩,
        fun all => all.2.2⟩
      exact absurd none.symm (List.append_ne_nil_of_right_ne_nil _ (List.cons_ne_nil x after))
  | cons x env ih =>
      rw [applyOver_cons, ih, unhindered_cons, List.foldl_cons, List.forall_mem_cons]
      tauto

theorem exists_applyOver_iff :
    (∃ c', applyOver odd env c = .ok c') ↔ (∀ x ∈ env, Readable x) ∧ Unhindered odd c env := by
  simp only [applyOver_eq_ok_iff, exists_and_left, exists_eq', and_true]

end Ways

/-! ## The configuration file -/

/-- The usual path of the configuration file: the first that holds data, or, if none does, the one
to be written. -/
inductive Usual (files : Files) (home : String) : String → Prop
  | found {before after : List String} {path : String}
      (names : fileNames.map (ownPath home) = before ++ path :: after)
      (bare : ∀ p ∈ before, files.holdsData p = .ok false) (holds : files.holdsData path = .ok true) :
      Usual files home path
  | missing (bare : ∀ name ∈ fileNames, files.holdsData (ownPath home name) = .ok false) :
      Usual files home (ownPath home "config.json")

/-- The configuration file can be looked for: the system answers for the path that a variable names;
and unless that is there, a user has a folder, and the system answers for the usual path there. -/
structure Findable (files : Files) (env : Variables) : Prop where
  named : ∀ path, namedPath? env = some path → ∃ there, files.isThere path = .ok there
  usual : (∀ path, namedPath? env = some path → files.isThere path = .ok false) →
    ∃ home path there, homeFolder files env = .ok home ∧ Usual files home path ∧
      files.isThere path = .ok there

section File
variable {files : Files} {env : Variables} {home path : String}

theorem firstWithData_append {before : List String}
    (bare : ∀ p ∈ before, files.holdsData p = .ok false) (rest : List String) :
    firstWithData files (before ++ rest) = firstWithData files rest := by
  induction before with
  | nil => rfl
  | cons p before ih =>
      obtain ⟨first, others⟩ := List.forall_mem_cons.mp bare
      rw [List.cons_append, firstWithData, first]
      exact ih others

/-- A search for data ends at nothing, where no path holds any, or at the first path that does. -/
theorem firstWithData_cases {paths : List String} {found : Option String}
    (searched : firstWithData files paths = .ok found) :
    (found = none ∧ ∀ p ∈ paths, files.holdsData p = .ok false) ∨
      ∃ before path after, paths = before ++ path :: after ∧ found = some path ∧
        (∀ p ∈ before, files.holdsData p = .ok false) ∧ files.holdsData path = .ok true := by
  induction paths with
  | nil => exact .inl ⟨(Except.ok.inj searched).symm, List.forall_mem_nil _⟩
  | cons first paths ih =>
      rw [firstWithData] at searched
      cases holds : files.holdsData first with
      | error f =>
          rw [holds] at searched
          cases searched
      | ok data =>
          rw [holds] at searched
          cases data with
          | true =>
              exact .inr ⟨[], first, paths, rfl, (Except.ok.inj searched).symm,
                List.forall_mem_nil _, holds⟩
          | false =>
              rcases ih searched with ⟨none, bare⟩ | ⟨before, path, after, same, some, bare, data⟩
              · exact .inl ⟨none, List.forall_mem_cons.mpr ⟨holds, bare⟩⟩
              · exact .inr ⟨first :: before, path, after, by rw [same, List.cons_append], some,
                  List.forall_mem_cons.mpr ⟨holds, bare⟩, data⟩

theorem exists_firstWithData_iff :
    (∃ found, firstWithData files (fileNames.map (ownPath home)) = .ok found ∧
      found.getD (ownPath home "config.json") = path) ↔ Usual files home path := by
  constructor
  · rintro ⟨found, searched, rfl⟩
    rcases firstWithData_cases searched with ⟨rfl, bare⟩ | ⟨before, p, after, names, rfl, bare, holds⟩
    · exact .missing fun name listed => bare _ (List.mem_map_of_mem listed)
    · exact .found names bare holds
  · rintro (⟨names, bare, holds⟩ | bare)
    · rw [names, firstWithData_append bare, firstWithData, holds]
      exact ⟨_, rfl, rfl⟩
    · have searched := firstWithData_append (List.forall_mem_map.mpr bare) []
      rw [List.append_nil] at searched
      exact ⟨none, searched, rfl⟩

theorem usualPath_eq_ok_iff :
    usualPath files env = .ok path ↔
      ∃ home, homeFolder files env = .ok home ∧ Usual files home path := by
  rw [usualPath]
  cases own : homeFolder files env with
  | error f =>
      refine iff_of_false (fun found => nomatch found) ?_
      rintro ⟨home, same, -⟩
      cases same
  | ok home =>
      simp only [Except.ok.injEq, exists_eq_left', ← exists_firstWithData_iff, bind, Except.bind]
      cases firstWithData files (fileNames.map (ownPath home)) with
      | error f => simp [Except.mapError]
      | ok found => simp [Except.mapError, pure, Except.pure]

theorem filePath_of_unnamed (unnamed : namedPath? env = none) :
    filePath files env = usualPath files env := by
  rw [filePath, unnamed]

theorem filePath_of_named {there : Bool} (named : namedPath? env = some path)
    (looked : files.isThere path = .ok there) :
    filePath files env = if there then .ok path else usualPath files env := by
  rw [filePath, named]
  simp only [looked]
  cases there <;> rfl

theorem locate_eq_ok_iff {there : Bool} :
    locate files env = .ok (path, there) ↔
      filePath files env = .ok path ∧ files.isThere path = .ok there := by
  rw [locate]
  constructor
  · intro located
    obtain ⟨found, chosen, looks⟩ := of_bind_eq_ok located
    obtain ⟨b, asked, same⟩ := of_bind_eq_ok looks
    cases looked : files.isThere found with
    | error f =>
        rw [looked] at asked
        cases asked
    | ok b' =>
        rw [looked] at asked
        cases asked
        cases same
        exact ⟨chosen, looked⟩
  · rintro ⟨chosen, looked⟩
    rw [chosen]
    simp only [bind, Except.bind, looked]
    rfl

/-- The configuration file is found, and looked at, just if it can be looked for. -/
theorem exists_locate_iff : (∃ found, locate files env = .ok found) ↔ Findable files env := by
  simp only [Prod.exists, locate_eq_ok_iff]
  cases named : namedPath? env with
  | none =>
      have never {p : String} (some : namedPath? env = some p) : False :=
        nomatch named.symm.trans some
      simp only [filePath_of_unnamed named, usualPath_eq_ok_iff]
      constructor
      · rintro ⟨path, there, ⟨home, own, usual⟩, looked⟩
        exact ⟨fun _ some => (never some).elim, fun _ => ⟨home, path, there, own, usual, looked⟩⟩
      · intro findable
        obtain ⟨home, path, there, own, usual, looked⟩ :=
          findable.usual fun _ some => (never some).elim
        exact ⟨path, there, ⟨home, own, usual⟩, looked⟩
  | some path =>
      have only {p : String} (some : namedPath? env = some p) : p = path :=
        Option.some.inj (some.symm.trans named)
      cases looked : files.isThere path with
      | error f =>
          refine iff_of_false ?_ fun findable => ?_
          · rintro ⟨p, there, found, -⟩
            rw [filePath, named] at found
            simp [looked, Except.mapError, bind, Except.bind] at found
          · obtain ⟨there, same⟩ := findable.named path named
            cases looked.symm.trans same
      | ok there =>
          have answers : ∀ p, namedPath? env = some p → ∃ there, files.isThere p = .ok there :=
            fun p some => ⟨there, only some ▸ looked⟩
          rw [filePath_of_named named looked]
          cases there with
          | true =>
              refine iff_of_true ⟨path, true, rfl, looked⟩ ⟨answers, fun absent => ?_⟩
              cases looked.symm.trans (absent path named)
          | false =>
              simp only [Bool.false_eq_true, if_false, usualPath_eq_ok_iff]
              constructor
              · rintro ⟨p, there, ⟨home, own, usual⟩, looked⟩
                exact ⟨answers, fun _ => ⟨home, p, there, own, usual, looked⟩⟩
              · intro findable
                obtain ⟨home, p, there, own, usual, looked'⟩ :=
                  findable.usual fun q some => only some ▸ looked
                exact ⟨p, there, ⟨home, own, usual⟩, looked'⟩

/-- A configuration is loaded exactly when its file can be looked for and each setting stands for a
value and comes to no section with a key that is no text. -/
theorem exists_load_iff {libraries : Libraries} :
    (∃ c, (load libraries files env).1 = .ok c) ↔
      Findable files env ∧ (∀ x ∈ env, Readable x) ∧
        ∀ path there, locate files env = .ok (path, there) →
          Unhindered (base libraries files path there).1.2 (base libraries files path there).1.1
            env := by
  rw [← exists_locate_iff, load]
  cases located : locate files env with
  | error f =>
      refine iff_of_false (fun ⟨_, loaded⟩ => nomatch loaded) ?_
      rintro ⟨⟨found, same⟩, -⟩
      cases same
  | ok found =>
      obtain ⟨path, there⟩ := found
      simp [exists_applyOver_iff]

end File

/-- Variables give a configuration exactly when each setting among them stands for a value. One is
loaded exactly when, moreover, the configuration file can be looked for and no setting comes to a
section of it with a key that is no text. -/
theorem overrides_return_iff (libraries : Libraries) (files : Files) (env : Variables)
    (config : Section) :
    ((∃ c, applyVariables env config = .ok c) ↔ ∀ x ∈ env, Readable x) ∧
    ((∃ c, (load libraries files env).1 = .ok c) ↔
      Findable files env ∧ (∀ x ∈ env, Readable x) ∧
        ∀ path there, locate files env = .ok (path, there) →
          Unhindered (base libraries files path there).1.2 (base libraries files path there).1.1
            env) :=
  ⟨exists_applyVariables_iff, exists_load_iff⟩

/-- A superscript looks like a digit and is none, so it stops the start by a setting that there is
not. -/
theorem superscript_stops_start :
    applyVariables [("FILANG_NOPE_THING", "²")] defaults = .error (.notDecimal "²") ∧
    ¬ ∃ c, (load .standard (.ofStore (.empty ⟨0⟩)) [("FILANG_NOPE_THING", "²")]).1 = .ok c := by
  refine ⟨rfl, fun loaded => ?_⟩
  have readable := (exists_load_iff.mp loaded).2.1 ("FILANG_NOPE_THING", "²") List.mem_cons_self
  exact absurd readable (by decide)

end FileQuery.Config
