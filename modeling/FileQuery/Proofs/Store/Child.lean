import FileQuery.Proofs.Session
import FileQuery.Proofs.Store.ReadBack

/-! Paths of names in folders. Where no link stands, the path of a name in a folder ends at the place
of that name in the place of the folder, if the path may be followed at all (`locate_joinName`); and
only from a folder does such a path lead anywhere. -/
set_option autoImplicit false
namespace FileQuery.Store

open Path (Canonical Clean)

variable {s : Store} {follow : Bool} {folder name : String} {place p : Place} {mode : Nat}
  {entry : Entry} {spot : Spot}

theorem canonical_joinName (canonical : Canonical folder.toList) (clean : Clean name.toList) :
    Canonical (joinName folder name).toList := by
  rw [joinName, String.toList_ofList]
  exact .join canonical clean

theorem canonical_root {k : Nat} (slashes : k = 1 ∨ k = 2) :
    Canonical (String.ofList (List.replicate k '/')).toList := by
  rw [String.toList_ofList]
  exact .root slashes

theorem canonical_induction {motive : (path : String) → Canonical path.toList → Prop}
    (root : ∀ k (slashes : k = 1 ∨ k = 2), motive _ (canonical_root slashes))
    (join : ∀ folder name (above : Canonical folder.toList) (clean : Clean name.toList),
      motive folder above → motive (joinName folder name) (canonical_joinName above clean))
    (path : String) (canonical : Canonical path.toList) : motive path canonical := by
  have all : ∀ chars, Canonical chars → ∀ path (canonical : Canonical path.toList),
      path = String.ofList chars → motive path canonical := by
    intro chars parts
    induction parts with
    | root slashes =>
        rintro _ _ rfl
        exact root _ slashes
    | @join a n above clean ih =>
        have above' : Canonical (String.ofList a).toList := by rwa [String.toList_ofList]
        have clean' : Clean (String.ofList n).toList := by rwa [String.toList_ofList]
        have same : String.ofList (Path.join a n) = joinName (String.ofList a) (String.ofList n) := by
          rw [joinName, String.toList_ofList, String.toList_ofList]
        rw [same]
        rintro _ _ rfl
        exact join _ _ above' clean' (ih _ above' rfl)
  exact all _ canonical path canonical String.ofList_toList.symm

theorem ne_nil_of_canonical {path : List Char} (canonical : Canonical path) : path ≠ [] := by
  rintro rfl
  exact absurd canonical.rooted (by decide)

theorem pathNames_of_canonical {path : List Char} (canonical : Canonical path) :
    pathNames path = (Path.solid path).map String.ofList := by
  cases canonical with
  | root slashes => rcases slashes with rfl | rfl <;> decide
  | join above clean => rw [pathNames_join clean, clean.solid_join, List.map_append, List.map_singleton]

theorem pathNames_root {k : Nat} (slashes : k = 1 ∨ k = 2) :
    pathNames (String.ofList (List.replicate k '/')).toList = [] := by
  rcases slashes with rfl | rfl <;> decide

theorem pathNames_joinName (canonical : Canonical folder.toList) (clean : Clean name.toList) :
    pathNames (joinName folder name).toList = pathNames folder.toList ++ [name] := by
  rw [pathNames_of_canonical canonical, joinName, String.toList_ofList, pathNames_join clean,
    String.ofList_toList]

theorem utf8ByteSize_joinName (clean : Clean name.toList) :
    folder.utf8ByteSize ≤ (joinName folder name).utf8ByteSize := by
  rw [joinName]
  rcases Path.join_eq clean.relative folder.toList with ⟨same, _⟩ | ⟨same, _⟩
  all_goals
    rw [same, String.ofList_append, String.ofList_toList, String.utf8ByteSize_append]
    omega

/-! ## Down to a name -/

/-- Whether the path of a name in a folder may be followed to its end. -/
structure Fits (folder name : String) : Prop where
  plain : hasNul (joinName folder name) = false
  short : (joinName folder name).utf8ByteSize < maxPath
  own : name.utf8ByteSize ≤ maxName

def spotAt (s : Store) (place : Place) : Spot :=
  match s.get? place with
  | some e => .found place e
  | none => .free place

theorem place_spotAt (s : Store) (place : Place) : (s.spotAt place).place = place := by
  rw [spotAt]
  split <;> rfl

theorem enter_name {onLink : Place → List String → Except Errno Spot} (clean : Clean name.toList)
    (inFolder : s.get? place = some (.folder mode))
    (noLink : ∀ target, s.get? (place ++ [name]) = some (.link target) → follow = false) :
    enter s follow onLink place [name] =
      if maxName < name.utf8ByteSize then .error .nameTooLong else .ok (s.spotAt (place ++ [name])) := by
  have noDot : name ≠ "." := fun same => clean.noDot (by rw [same]; rfl)
  have noDots : name ≠ ".." := fun same => clean.noDots (by rw [same]; rfl)
  rw [enter, inFolder]
  dsimp only
  rw [if_neg noDot, if_neg noDots, spotAt]
  refine if_congr Iff.rfl rfl ?_
  cases there : s.get? (place ++ [name]) with
  | none => rfl
  | some e =>
      cases e with
      | link target =>
          rw [noLink target there]
          rfl
      | folder mode' =>
          dsimp only
          rw [enter, there]
      | file bytes mode' modified =>
          dsimp only
          rw [enter, there]

/-- The path of a name in a folder ends at the place of the name, if no link is followed there. -/
theorem locate_joinName (ends : s.stat true folder = .ok (place, .folder mode))
    (clean : Clean name.toList)
    (noLink : ∀ target, s.get? (place ++ [name]) = some (.link target) → follow = false) :
    s.locate follow (joinName folder name) = .ok spot ↔
      Fits folder name ∧ spot = s.spotAt (place ++ [name]) := by
  obtain ⟨onLink, below⟩ := locate_below ends clean follow
  rw [below, enter_name clean (get?_of_stat ends) noLink]
  constructor
  · rintro ⟨plain, short, found⟩
    split at found
    · cases found
    · next own =>
        cases found
        exact ⟨⟨plain, short, Nat.le_of_not_lt own⟩, rfl⟩
  · rintro ⟨⟨plain, short, own⟩, rfl⟩
    exact ⟨plain, short, by rw [if_neg (Nat.not_lt_of_le own)]⟩

theorem stat_joinName_of_get? (ends : s.stat true folder = .ok (place, .folder mode))
    (clean : Clean name.toList) (fits : Fits folder name) (found : s.get? (place ++ [name]) = some entry)
    (noLink : ∀ target, entry = .link target → follow = false) :
    s.stat follow (joinName folder name) = .ok (place ++ [name], entry) := by
  rw [stat_eq_ok_iff_locate, locate_joinName ends clean, spotAt, found]
  · exact ⟨fits, rfl⟩
  · intro target link
    rw [found, Option.some.injEq] at link
    exact noLink target link

/-! ## Up to the folder -/

theorem enter_init {onLink onLink' : Place → List String → Except Errno Spot}
    (jumps : ∀ here names, onLink here (names ++ [name]) = .ok spot →
      ∃ p mode, onLink' here names = .ok (.found p (.folder mode))) (names : List String) :
    ∀ {here : Place}, enter s follow onLink here (names ++ [name]) = .ok spot →
      ∃ p mode, enter s true onLink' here names = .ok (.found p (.folder mode)) := by
  induction names with
  | nil =>
      intro here ends
      rw [List.nil_append, enter] at ends
      split at ends
      · cases ends
      · next mode found => exact ⟨here, mode, by rw [enter, found]⟩
      · cases ends
  | cons first names ih =>
      intro here ends
      have more : (names ++ [name]).isEmpty = false := by simp
      rw [List.cons_append, enter, more] at ends
      split at ends
      · cases ends
      · next folder =>
          rw [enter, folder]
          dsimp only
          split at ends
          · next dot => rw [if_pos dot]; exact ih ends
          next noDot =>
          split at ends
          · next dots => rw [if_neg noDot, if_pos dots]; exact ih ends
          next noDots =>
          split at ends
          · cases ends
          next short =>
          rw [if_neg noDot, if_neg noDots, if_neg short]
          dsimp only at ends
          split at ends
          · cases ends
          · next target link =>
              rw [Bool.false_and, if_neg (by simp), ← List.append_assoc] at ends
              rw [Bool.not_true, Bool.and_false, if_neg (by simp)]
              exact jumps _ _ ends
          · exact ih ends
      · cases ends

theorem walk_init (k : Nat) : ∀ {here : Place} {names : List String},
    walk s follow k here (names ++ [name]) = .ok spot →
      ∃ p mode, walk s true k here names = .ok (.found p (.folder mode)) := by
  induction k with
  | zero =>
      intro here names ends
      exact enter_init (fun _ _ found => by cases found) names ends
  | succ k ih =>
      intro here names ends
      refine enter_init (fun here names found => ?_) names ends
      exact ih found

theorem plain_of_joinName (clean : Clean name.toList) (plain : hasNul (joinName folder name) = false) :
    hasNul folder = false := by
  rw [hasNul_joinName clean, Bool.or_eq_false_iff] at plain
  exact plain.1

theorem folder_of_locate_joinName (canonical : Canonical folder.toList) (clean : Clean name.toList)
    (located : s.locate follow (joinName folder name) = .ok spot) :
    ∃ place mode, s.stat true folder = .ok (place, .folder mode) := by
  obtain ⟨plain, _, short, ends⟩ := locate_eq_ok_iff.mp located
  have some := ne_nil_of_canonical canonical
  rw [origin_joinName some clean, pathNames_joinName canonical clean] at ends
  obtain ⟨place, mode, inside⟩ := walk_init maxLinks ends
  have size : folder.utf8ByteSize ≤ (joinName folder name).utf8ByteSize := utf8ByteSize_joinName clean
  exact ⟨place, mode, stat_eq_ok_iff.mpr ⟨plain_of_joinName clean plain, some, by omega, inside⟩⟩

theorem of_parentOf_joinName {last : Option String} (canonical : Canonical folder.toList)
    (clean : Clean name.toList) (plain : hasNul (joinName folder name) = false)
    (parent : s.parentOf (joinName folder name) = .ok (place, last)) :
    last = some name ∧ (joinName folder name).utf8ByteSize < maxPath ∧
      ∃ mode, s.stat true folder = .ok (place, .folder mode) := by
  have some := ne_nil_of_canonical canonical
  have start := origin_joinName some clean
  have names := pathNames_joinName canonical clean
  have noDot : name ≠ "." := fun same => clean.noDot (by rw [same]; rfl)
  have noDots : name ≠ ".." := fun same => clean.noDots (by rw [same]; rfl)
  rw [origin] at start
  rw [parentOf, names, List.dropLast_concat, List.getLast?_concat, start] at parent
  split at parent
  · cases parent
  next short =>
  split at parent
  · cases parent
  · cases parent
  · next mode inside =>
      cases parent
      have size : folder.utf8ByteSize ≤ (joinName folder name).utf8ByteSize := utf8ByteSize_joinName clean
      refine ⟨by simp [noDot, noDots], by omega, mode, stat_eq_ok_iff.mpr ?_⟩
      exact ⟨plain_of_joinName clean plain, some, by omega, inside⟩
  · cases parent

end FileQuery.Store
