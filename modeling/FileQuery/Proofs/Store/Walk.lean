import FileQuery.Proofs.Path
import FileQuery.Proofs.Store.Fault

/-! Where paths lead, in one store and in another that has all its entries. A walk only looks at
entries that are there, and only at whether they are folders and where links point, so a path that
leads to an entry still does in any store that keeps all of them alike. -/
set_option autoImplicit false
namespace FileQuery

/-- Entries of one kind; links with one target. -/
def Entry.Alike : Entry → Entry → Prop
  | .folder _, .folder _ => True
  | .file .., .file .. => True
  | .link target, .link target' => target = target'
  | _, _ => False

theorem Entry.Alike.refl (e : Entry) : e.Alike e := by
  cases e with
  | folder mode => trivial
  | file bytes mode modified => trivial
  | link target => rfl

theorem Entry.Alike.trans {e e' e'' : Entry} (first : e.Alike e') (second : e'.Alike e'') :
    e.Alike e'' := by
  cases e <;> cases e' <;> cases e'' <;> simp_all [Entry.Alike]

namespace Store

variable {s t : Store} {follow : Bool}

/-- Whether another store has an entry alike wherever one has an entry. -/
def Keeps (s t : Store) : Prop :=
  ∀ p e, s.get? p = some e → ∃ e', t.get? p = some e' ∧ e.Alike e'

theorem Keeps.refl (s : Store) : Keeps s s := fun _ e found => ⟨e, found, .refl e⟩

theorem Keeps.trans {u : Store} (first : Keeps s t) (second : Keeps t u) : Keeps s u := by
  intro p e found
  obtain ⟨e', found', alike⟩ := first p e found
  obtain ⟨e'', found'', alike'⟩ := second p e' found'
  exact ⟨e'', found'', alike.trans alike'⟩

/-- What becomes of a link after so many others may still be followed. -/
def jump (s : Store) (follow : Bool) : Nat → Place → List String → Except Errno Spot
  | 0 => fun _ _ => .error .tooManyLinks
  | n + 1 => walk s follow n

theorem walk_eq_enter (s : Store) (follow : Bool) (k : Nat) :
    walk s follow k = enter s follow (jump s follow k) := by
  cases k <;> rfl

/-- Where one name leads from a place: to another place, or to a link with a target. -/
def step? (s : Store) (here : Place) (name : String) : Option (Place ⊕ String) :=
  match s.get? here with
  | some (.folder _) =>
    if name = "." then some (.inl here)
    else if name = ".." then some (.inl here.dropLast)
    else if maxName < name.utf8ByteSize then none
    else match s.get? (here ++ [name]) with
      | none => none
      | some (.link target) => some (.inr target)
      | some _ => some (.inl (here ++ [name]))
  | _ => none

section
variable {onLink : Place → List String → Except Errno Spot} {here next : Place} {name target : String}
  {names : List String}

theorem enter_cons (s : Store) (follow : Bool) (onLink : Place → List String → Except Errno Spot)
    (here : Place) (name : String) (names : List String) :
    match s.step? here name with
    | some (.inl next) =>
      enter s follow onLink here (name :: names) = enter s follow onLink next names
    | some (.inr target) =>
      enter s follow onLink here (name :: names) =
        if names.isEmpty && !follow then .ok (.found (here ++ [name]) (.link target))
        else onLink (if Path.isAbsolute target.toList then [] else here)
          (pathNames target.toList ++ names)
    | none => ∀ place entry, enter s follow onLink here (name :: names) ≠ .ok (.found place entry) := by
  rw [step?, enter]
  cases s.get? here with
  | none => simp
  | some e =>
      cases e with
      | file bytes mode modified => simp
      | link target => simp
      | folder mode =>
          by_cases dot : name = "."
          · simp only [if_pos dot]
          by_cases dots : name = ".."
          · simp only [if_neg dot, if_pos dots]
          by_cases long : maxName < name.utf8ByteSize
          · simp [dot, dots, long]
          simp only [if_neg dot, if_neg dots, if_neg long]
          cases s.get? (here ++ [name]) with
          | none =>
              dsimp only
              split <;> simp
          | some e => cases e <;> rfl

theorem enter_of_place (leads : s.step? here name = some (.inl next)) :
    enter s follow onLink here (name :: names) = enter s follow onLink next names := by
  have stepped := enter_cons s follow onLink here name names
  rwa [leads] at stepped

theorem enter_of_link (leads : s.step? here name = some (.inr target)) :
    enter s follow onLink here (name :: names) =
      if names.isEmpty && !follow then .ok (.found (here ++ [name]) (.link target))
      else onLink (if Path.isAbsolute target.toList then [] else here)
        (pathNames target.toList ++ names) := by
  have stepped := enter_cons s follow onLink here name names
  rwa [leads] at stepped

theorem step?_of_found {place : Place} {entry : Entry}
    (ends : enter s follow onLink here (name :: names) = .ok (.found place entry)) :
    ∃ next, s.step? here name = some next := by
  have stepped := enter_cons s follow onLink here name names
  cases leads : s.step? here name with
  | none =>
      rw [leads] at stepped
      exact absurd ends (stepped place entry)
  | some next => exact ⟨next, rfl⟩

theorem Keeps.step? (keeps : Keeps s t) {next : Place ⊕ String}
    (leads : s.step? here name = some next) : t.step? here name = some next := by
  rw [Store.step?] at leads ⊢
  cases found : s.get? here with
  | none =>
      rw [found] at leads
      cases leads
  | some e =>
      obtain ⟨e', found', alike⟩ := keeps _ _ found
      rw [found] at leads
      rw [found']
      cases e with
      | file bytes mode modified => cases leads
      | link target => cases leads
      | folder mode =>
          cases e' <;> cases alike
          by_cases dot : name = "."
          · simp only [if_pos dot] at leads ⊢
            exact leads
          by_cases dots : name = ".."
          · simp only [if_neg dot, if_pos dots] at leads ⊢
            exact leads
          by_cases long : maxName < name.utf8ByteSize
          · simp only [if_neg dot, if_neg dots, if_pos long] at leads
            cases leads
          simp only [if_neg dot, if_neg dots, if_neg long] at leads ⊢
          cases there : s.get? (here ++ [name]) with
          | none =>
              rw [there] at leads
              cases leads
          | some e =>
              obtain ⟨e', there', alike⟩ := keeps _ _ there
              rw [there] at leads
              rw [there']
              cases e <;> cases e' <;> cases alike <;> exact leads

end

/-! More names. -/

theorem enter_append {rest : List String} (more : rest ≠ []) {place : Place} {entry : Entry}
    {onLink : Place → List String → Except Errno Spot}
    (onLink' : Place → List String → Except Errno Spot) (names : List String) :
    ∀ {here : Place}, enter s true onLink here names = .ok (.found place entry) →
      enter s follow onLink' here (names ++ rest) = enter s follow onLink' place rest ∨
      ∃ here' names', onLink here' names' = .ok (.found place entry) ∧
        enter s follow onLink' here (names ++ rest) = onLink' here' (names' ++ rest) := by
  induction names with
  | nil =>
      intro here ends
      rw [enter] at ends
      split at ends
      · cases ends
        exact .inl rfl
      · cases ends
  | cons name names ih =>
      intro here ends
      obtain ⟨next | target, leads⟩ := step?_of_found ends
      · rw [enter_of_place leads] at ends
        rw [List.cons_append, enter_of_place leads]
        exact ih ends
      · have later : (names ++ rest).isEmpty = false := by simp [more]
        rw [enter_of_link leads, Bool.not_true, Bool.and_false, if_neg (by simp)] at ends
        rw [List.cons_append, enter_of_link leads, later, Bool.false_and, if_neg (by simp),
          ← List.append_assoc]
        exact .inr ⟨_, _, ends, rfl⟩

theorem walk_append (follow : Bool) {rest : List String} (more : rest ≠ []) {place : Place}
    {entry : Entry} (k : Nat) :
    ∀ {here : Place} {names : List String}, walk s true k here names = .ok (.found place entry) →
      ∃ j, walk s follow k here (names ++ rest) = walk s follow j place rest := by
  induction k with
  | zero =>
      intro here names ends
      rw [walk_eq_enter] at ends
      rcases enter_append more (jump s follow 0) names ends with same | ⟨_, _, found, _⟩
      · exact ⟨0, by rw [walk_eq_enter]; exact same⟩
      · cases found
  | succ k ih =>
      intro here names ends
      rw [walk_eq_enter] at ends
      rcases enter_append more (jump s follow (k + 1)) names ends with
        same | ⟨here', names', found, same⟩
      · exact ⟨k + 1, by rw [walk_eq_enter]; exact same⟩
      · obtain ⟨j, same'⟩ := ih found
        exact ⟨j, by rw [walk_eq_enter, same]; exact same'⟩

theorem enter_of_dot {place : Place} {entry : Entry}
    {onLink : Place → List String → Except Errno Spot}
    (jumps : ∀ here names, onLink here (names ++ ["."]) = .ok (.found place entry) →
      onLink here names = .ok (.found place entry)) (names : List String) :
    ∀ {here : Place}, enter s true onLink here (names ++ ["."]) = .ok (.found place entry) →
      enter s true onLink here names = .ok (.found place entry) := by
  induction names with
  | nil =>
      intro here ends
      obtain ⟨next, leads⟩ := step?_of_found ends
      have dot : next = .inl here := by
        rw [step?] at leads
        split at leads
        · rw [if_pos rfl] at leads
          exact (Option.some.inj leads).symm
        · cases leads
      rw [dot] at leads
      rwa [List.nil_append, enter_of_place leads] at ends
  | cons name names ih =>
      intro here ends
      obtain ⟨next | target, leads⟩ := step?_of_found ends
      · rw [List.cons_append, enter_of_place leads] at ends
        rw [enter_of_place leads]
        exact ih ends
      · rw [List.cons_append, enter_of_link leads, Bool.not_true, Bool.and_false, if_neg (by simp),
          ← List.append_assoc] at ends
        rw [enter_of_link leads, Bool.not_true, Bool.and_false, if_neg (by simp)]
        exact jumps _ _ ends

theorem walk_of_dot {place : Place} {entry : Entry} (k : Nat) : ∀ {here : Place} {names : List String},
    walk s true k here (names ++ ["."]) = .ok (.found place entry) →
      walk s true k here names = .ok (.found place entry) := by
  induction k with
  | zero =>
      intro here names ends
      exact enter_of_dot (fun _ _ found => by cases found) names ends
  | succ k ih =>
      intro here names ends
      refine enter_of_dot (fun here names => ?_) names ends
      exact ih

/-! Links at the end. -/

theorem enter_follow {place : Place} {entry : Entry} (noLink : ∀ target, entry ≠ .link target)
    {onLink onLink' : Place → List String → Except Errno Spot}
    (jumps : ∀ here names, onLink here names = .ok (.found place entry) →
      onLink' here names = .ok (.found place entry)) (names : List String) :
    ∀ {here : Place}, enter s false onLink here names = .ok (.found place entry) →
      enter s true onLink' here names = .ok (.found place entry) := by
  induction names with
  | nil => exact fun ends => ends
  | cons name names ih =>
      intro here ends
      obtain ⟨next | target, leads⟩ := step?_of_found ends
      · rw [enter_of_place leads] at ends ⊢
        exact ih ends
      · rw [enter_of_link leads] at ends
        rw [enter_of_link leads, Bool.not_true, Bool.and_false, if_neg (by simp)]
        split at ends
        · cases ends
          exact absurd rfl (noLink target)
        · exact jumps _ _ ends

theorem walk_follow {place : Place} {entry : Entry} (noLink : ∀ target, entry ≠ .link target)
    (k : Nat) : ∀ {here : Place} {names : List String},
      walk s false k here names = .ok (.found place entry) →
      walk s true k here names = .ok (.found place entry) := by
  induction k with
  | zero =>
      intro here names ends
      exact enter_follow noLink (fun _ _ found => by cases found) names ends
  | succ k ih =>
      intro here names ends
      exact enter_follow noLink (fun _ _ found => ih found) names ends

/-! Other stores. -/

theorem Keeps.enter (keeps : Keeps s t) {place : Place} {entry : Entry}
    {onLink onLink' : Place → List String → Except Errno Spot}
    (jumps : ∀ here names, onLink here names = .ok (.found place entry) →
      ∃ entry', onLink' here names = .ok (.found place entry') ∧ entry.Alike entry')
    (names : List String) : ∀ {here : Place},
      s.enter follow onLink here names = .ok (.found place entry) →
      ∃ entry', t.enter follow onLink' here names = .ok (.found place entry') ∧
        entry.Alike entry' := by
  induction names with
  | nil =>
      intro here ends
      rw [Store.enter] at ends ⊢
      cases found : s.get? here with
      | none =>
          rw [found] at ends
          cases ends
      | some e =>
          rw [found] at ends
          cases ends
          obtain ⟨e', found', alike⟩ := keeps _ _ found
          exact ⟨e', by rw [found'], alike⟩
  | cons name names ih =>
      intro here ends
      obtain ⟨next | target, leads⟩ := step?_of_found ends
      · rw [enter_of_place leads] at ends
        rw [enter_of_place (keeps.step? leads)]
        exact ih ends
      · rw [enter_of_link leads] at ends
        rw [enter_of_link (keeps.step? leads)]
        split at ends
        · next last =>
            rw [if_pos last]
            cases ends
            exact ⟨_, rfl, .refl _⟩
        · next more =>
            rw [if_neg more]
            exact jumps _ _ ends

theorem Keeps.walk (keeps : Keeps s t) {place : Place} {entry : Entry} (k : Nat) :
    ∀ {here : Place} {names : List String}, s.walk follow k here names = .ok (.found place entry) →
      ∃ entry', t.walk follow k here names = .ok (.found place entry') ∧ entry.Alike entry' := by
  induction k with
  | zero =>
      intro here names ends
      exact keeps.enter (fun _ _ found => by cases found) _ ends
  | succ k ih =>
      intro here names ends
      exact keeps.enter (fun _ _ found => ih found) _ ends

theorem enter_last {onLink : Place → List String → Except Errno Spot} {here place : Place}
    {name : String} {entry : Entry} (clean : Path.Clean name.toList)
    (found : enter s true onLink here [name] = .ok (.found place entry)) :
    ∃ own, s.get? (here ++ [name]) = some own ∧
      ∀ onLink', enter s false onLink' here [name] = .ok (.found (here ++ [name]) own) := by
  have noDot : name ≠ "." := fun same => clean.noDot (by rw [same]; rfl)
  have noDots : name ≠ ".." := fun same => clean.noDots (by rw [same]; rfl)
  obtain ⟨next, leads⟩ := step?_of_found found
  have step := leads
  rw [step?] at step
  split at step
  · rw [if_neg noDot, if_neg noDots] at step
    split at step
    · cases step
    · split at step
      · cases step
      · next target there =>
          cases step
          exact ⟨_, there, fun _ => by rw [enter_of_link leads]; rfl⟩
      · next own notLink there =>
          cases step
          refine ⟨own, there, fun _ => ?_⟩
          rw [enter_of_place leads, enter, there]
  · cases step

/-! Paths. -/

def origin (path : String) : Place := if Path.isAbsolute path.toList then [] else workPlace

/-- A path ends somewhere if it is one that may be followed, and following it ends there. -/
theorem locate_eq_ok_iff {path : String} {spot : Spot} :
    s.locate follow path = .ok spot ↔
      hasNul path = false ∧ path.toList ≠ [] ∧ path.utf8ByteSize < maxPath ∧
        s.walk follow maxLinks (origin path) (pathNames path.toList) = .ok spot := by
  rw [locate, hasNul, origin]
  cases nul : path.toList.contains '\x00' with
  | true => simp
  | false =>
      simp only [Bool.false_eq_true, if_false, true_and]
      by_cases empty : path.toList = []
      · simp [empty, Except.mapError]
      by_cases long : maxPath ≤ path.utf8ByteSize
      · simp only [Nat.not_lt_of_le long, false_and, and_false, iff_false]
        simp [long, empty, Except.mapError]
      have some : path.toList.isEmpty = false := by simpa using empty
      simp only [some, Bool.false_eq_true, if_false, if_neg long, ne_eq, empty, not_false_iff,
        true_and, Nat.lt_of_not_le long]
      cases s.walk follow maxLinks _ _ <;> simp [Except.mapError]

theorem stat_eq_ok_iff_locate {path : String} {place : Place} {entry : Entry} :
    s.stat follow path = .ok (place, entry) ↔ s.locate follow path = .ok (.found place entry) := by
  rw [Store.stat]
  rcases s.locate follow path with f | ⟨place', entry'⟩ | place' <;> simp

/-- A path leads to an entry if it is one that may be followed, and following it ends there. -/
theorem stat_eq_ok_iff {path : String} {place : Place} {entry : Entry} :
    s.stat follow path = .ok (place, entry) ↔
      hasNul path = false ∧ path.toList ≠ [] ∧ path.utf8ByteSize < maxPath ∧
        s.walk follow maxLinks (origin path) (pathNames path.toList) = .ok (.found place entry) :=
  stat_eq_ok_iff_locate.trans locate_eq_ok_iff

theorem stat_follow {path : String} {place : Place} {entry : Entry}
    (noLink : ∀ target, entry ≠ .link target) (ends : s.stat false path = .ok (place, entry)) :
    s.stat true path = .ok (place, entry) := by
  obtain ⟨plain, some, short, ends⟩ := stat_eq_ok_iff.mp ends
  exact stat_eq_ok_iff.mpr ⟨plain, some, short, walk_follow noLink maxLinks ends⟩

/-- A path that leads to an entry leads to one alike in a store that keeps all entries. -/
theorem Keeps.stat (keeps : Keeps s t) {path : String} {place : Place} {entry : Entry}
    (ends : s.stat follow path = .ok (place, entry)) :
    ∃ entry', t.stat follow path = .ok (place, entry') ∧ entry.Alike entry' := by
  obtain ⟨plain, some, short, ends⟩ := stat_eq_ok_iff.mp ends
  obtain ⟨entry', ends', alike⟩ := keeps.walk maxLinks ends
  exact ⟨entry', stat_eq_ok_iff.mpr ⟨plain, some, short, ends'⟩, alike⟩

section
variable {folder name : String} {place place' : Place} {mode : Nat} {entry : Entry}

theorem origin_joinName (some : folder.toList ≠ []) (clean : Path.Clean name.toList) :
    origin (joinName folder name) = origin folder := by
  rw [origin, joinName, String.toList_ofList, clean.isAbsolute_join some, origin]

theorem locate_below (ends : s.stat true folder = .ok (place, .folder mode))
    (clean : Path.Clean name.toList) (follow : Bool) :
    ∃ onLink, ∀ spot, s.locate follow (joinName folder name) = .ok spot ↔
      hasNul (joinName folder name) = false ∧ (joinName folder name).utf8ByteSize < maxPath ∧
        enter s follow onLink place [name] = .ok spot := by
  obtain ⟨_, some, _, ends⟩ := stat_eq_ok_iff.mp ends
  have names : pathNames (joinName folder name).toList =
      (Path.solid folder.toList).map String.ofList ++ [name] := by
    rw [joinName, String.toList_ofList, pathNames_join clean, String.ofList_toList]
  have inside : s.walk true maxLinks (origin folder)
      ((Path.solid folder.toList).map String.ofList) = .ok (.found place (.folder mode)) := by
    obtain ⟨dots, parts, rfl | rfl⟩ := pathNames_eq folder.toList
    · rw [parts, List.append_nil] at ends
      exact ends
    · rw [parts] at ends
      exact walk_of_dot maxLinks ends
  have some' : (joinName folder name).toList ≠ [] := by
    rw [joinName, String.toList_ofList]
    rcases Path.join_eq clean.relative folder.toList with ⟨joined, _⟩ | ⟨joined, _⟩ <;> rw [joined] <;>
      simp [some]
  obtain ⟨j, same⟩ := walk_append follow (List.cons_ne_nil name []) maxLinks inside
  refine ⟨jump s follow j, fun spot => ?_⟩
  rw [locate_eq_ok_iff, origin_joinName some clean, names, same, walk_eq_enter]
  exact ⟨fun ⟨plain, _, short, leads⟩ => ⟨plain, short, leads⟩,
    fun ⟨plain, short, leads⟩ => ⟨plain, some', short, leads⟩⟩

/-- The path of a name in a folder leads to the entry that stands there, if it leads anywhere. -/
theorem stat_joinName (ends : s.stat true folder = .ok (place, .folder mode))
    (clean : Path.Clean name.toList) (found : s.stat true (joinName folder name) = .ok (place', entry)) :
    ∃ own, s.get? (place ++ [name]) = some own ∧
      s.stat false (joinName folder name) = .ok (place ++ [name], own) := by
  obtain ⟨onLink, below⟩ := locate_below ends clean true
  obtain ⟨onLink', below'⟩ := locate_below ends clean false
  obtain ⟨plain, short, leads⟩ := (below _).mp (stat_eq_ok_iff_locate.mp found)
  obtain ⟨own, there, leads'⟩ := enter_last clean leads
  exact ⟨own, there, stat_eq_ok_iff_locate.mpr ((below' _).mpr ⟨plain, short, leads' onLink'⟩)⟩

end

end Store

end FileQuery
