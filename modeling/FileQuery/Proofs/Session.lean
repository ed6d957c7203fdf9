import FileQuery.Proofs.Path.Normalize
import FileQuery.Session
import FileQuery.Store.Transfer
import Mathlib.Data.List.Induction

/-! Where names lead in a session. Its folder is a normalised absolute path, so a clean name that is
resolved is joined to it and nothing else. -/
set_option autoImplicit false
namespace FileQuery

open Store (joinName hasNul)

namespace Path

theorem rootSlashes_pos_iff {a : List Char} : 0 < rootSlashes a ↔ isAbsolute a = true := by
  cases a with
  | nil => simp [rootSlashes, isAbsolute]
  | cons c r =>
      rw [rootSlashes, isAbsolute, List.head?_cons]
      by_cases slash : c = '/'
      · subst slash
        simp only [List.takeWhile_cons, beq_self_eq_true, if_true, List.length_cons, iff_true]
        split <;> omega
      · simp [slash]

theorem isAbsolute_join {a b : List Char} (absolute : isAbsolute a = true) :
    isAbsolute (join a b) = true := by
  rw [join]
  cases a with
  | nil => cases absolute
  | cons c r =>
      split
      · assumption
      · split <;> exact absolute

/-! Normalised absolute paths. -/

/-- One slash or two, and clean names that are joined to them. -/
inductive Canonical : List Char → Prop
  | root {k : Nat} (slashes : k = 1 ∨ k = 2) : Canonical (List.replicate k '/')
  | join {a n : List Char} (above : Canonical a) (clean : Clean n) : Canonical (join a n)

theorem Canonical.rooted {a : List Char} (canonical : Canonical a) : 0 < rootSlashes a := by
  induction canonical with
  | root slashes => rcases slashes with rfl | rfl <;> decide
  | join _ clean ih => rwa [clean.rootSlashes_join]

theorem Canonical.normalize_eq {a : List Char} (canonical : Canonical a) : normalize a = a := by
  induction canonical with
  | root slashes => rcases slashes with rfl | rfl <;> decide
  | join above clean ih => rw [clean.normalize_join above.rooted, ih]

theorem clean_foldl_pushPart {parts : List (List Char)} (slashless : ∀ p ∈ parts, '/' ∉ p) :
    ∀ {held : List (List Char)}, (∀ p ∈ held, Clean p) →
      ∀ p ∈ parts.foldl (pushPart true) held, Clean p := by
  induction parts with
  | nil => exact fun clean => clean
  | cons q qs ih =>
      intro held clean
      refine ih (fun p member => slashless p (by simp [member])) fun p member => ?_
      unfold pushPart at member
      split at member
      · exact clean p member
      · next kept =>
          obtain ⟨nonempty, noDot⟩ := not_or.mp kept
          split at member
          · -- above the root there is nothing, and no name that was kept is two dots
            cases held with
            | nil => cases member
            | cons top rest =>
                dsimp only at member
                rw [if_neg (clean top (by simp)).noDots] at member
                exact clean p (List.mem_cons_of_mem _ member)
          · next noDots =>
              rcases List.mem_cons.mp member with rfl | member
              · exact ⟨nonempty, slashless p (by simp), noDot, noDots⟩
              · exact clean p member

theorem canonical_slashes {k : Nat} (slashes : k = 1 ∨ k = 2) (names : List (List Char))
    (clean : ∀ n ∈ names, Clean n) : Canonical (List.replicate k '/' ++ joinParts names) := by
  induction names using List.reverseRecOn with
  | nil =>
      rw [joinParts, List.append_nil]
      exact .root slashes
  | append_singleton front n ih =>
      have before : ∀ m ∈ front, Clean m := fun m member => clean m (by simp [member])
      have last : Clean n := clean n (by simp)
      rw [← last.join_slashes (by omega) fun m member =>
        ⟨(before m member).nonempty, (before m member).slashless⟩]
      exact .join (ih before) last

theorem canonical_normalize {a : List Char} (rooted : 0 < rootSlashes a) :
    Canonical (normalize a) := by
  have slashes : rootSlashes a = 1 ∨ rootSlashes a = 2 := by
    have few := rootSlashes_le a
    omega
  rw [normalize_of_rooted rooted]
  refine canonical_slashes slashes _ fun n member => ?_
  rw [List.mem_reverse, stack, decide_eq_true rooted] at member
  exact clean_foldl_pushPart (fun p part => slashless_of_mem_split part) (by simp) n member

/-- The parent of a path with a clean name is what stands before the name, without the slashes at its
end unless it is slashes only. -/
theorem parent_of_slash {n : List Char} (clean : Clean n) (b : List Char) :
    parent (b ++ '/' :: n) =
      if (b ++ ['/']).all (· == '/') then b ++ ['/']
      else (b.reverse.dropWhile (· == '/')).reverse := by
  have inside : ∀ c ∈ n.reverse, (c != '/') = true := by
    intro c member
    rw [bne_iff_ne]
    rintro rfl
    exact clean.slashless (by simpa using member)
  have before : ((b ++ '/' :: n).reverse.dropWhile (· != '/')).reverse = b ++ ['/'] := by
    rw [List.reverse_append, List.reverse_cons, List.append_assoc,
      List.dropWhile_append_of_pos inside]
    simp
  rw [Path.parent, before]
  simp

theorem parent_slashes {k : Nat} (slashes : k = 1 ∨ k = 2) :
    parent (List.replicate k '/') = List.replicate k '/' := by
  rcases slashes with rfl | rfl <;> decide

theorem Canonical.parent_join {a n : List Char} (above : Canonical a) (clean : Clean n) :
    Path.parent (Path.join a n) = a := by
  rcases join_eq clean.relative a with ⟨joined, empty | ⟨b, ends⟩⟩ | ⟨joined, some, plain⟩
  · have rooted := above.rooted
    rw [empty] at rooted
    cases rooted
  · rw [joined, ends, List.append_assoc, List.singleton_append, parent_of_slash clean, ← ends,
      if_pos]
    -- only the root ends in a slash
    cases above with
    | root slashes => simp
    | join above' clean' =>
        exact absurd (by rw [ends, List.getLast?_concat]) (clean'.getLast?_join _)
  · obtain ⟨c, last⟩ : ∃ c, a.getLast? = .some c :=
      Option.ne_none_iff_exists'.mp (by simpa using some)
    obtain ⟨b, rfl⟩ := List.getLast?_eq_some_iff.mp last
    have other : c ≠ '/' := by
      rintro rfl
      exact plain last
    rw [joined, parent_of_slash clean, if_neg]
    · simp [other]
    · simp [other]

theorem Canonical.parent {a : List Char} (canonical : Canonical a) : Canonical (parent a) := by
  cases canonical with
  | root slashes =>
      rw [parent_slashes slashes]
      exact .root slashes
  | join above clean =>
      rw [above.parent_join clean]
      exact above

end Path

namespace Session

/-- The folder of a session is absolute and normalised. -/
structure Normal (session : Session) : Prop where
  absolute : Path.isAbsolute session.folder.toList = true
  normalized : Path.normalize session.folder.toList = session.folder.toList

variable {session : Session} {name : String}

theorem Normal.canonical (normal : session.Normal) : Path.Canonical session.folder.toList := by
  rw [← normal.normalized]
  exact Path.canonical_normalize (Path.rootSlashes_pos_iff.mpr normal.absolute)

theorem normal_of_canonical {path : List Char} (canonical : Path.Canonical path) :
    Normal ⟨String.ofList path⟩ where
  absolute := by
    rw [String.toList_ofList]
    exact Path.rootSlashes_pos_iff.mp canonical.rooted
  normalized := by
    rw [String.toList_ofList]
    exact canonical.normalize_eq

/-! Every session is normal: it starts so, and moves to a folder that is. -/

theorem normal_start (folder : String) : (start folder).Normal := by
  refine normal_of_canonical (Path.canonical_normalize ?_)
  rw [Path.rootSlashes_pos_iff]
  exact Path.isAbsolute_join (by decide)

theorem Normal.use {store : Store} {folder : String} {session' : Session} (normal : session.Normal)
    (moved : session.use store folder = .ok session') : session'.Normal := by
  rw [Session.use] at moved
  split at moved
  · cases moved
    refine normal_of_canonical (Path.canonical_normalize ?_)
    rw [Path.rootSlashes_pos_iff]
    exact Path.isAbsolute_join normal.absolute
  · cases moved

theorem Normal.drop {session' : Session} (normal : session.Normal)
    (moved : session.drop = .ok session') : session'.Normal := by
  rw [Session.drop] at moved
  split at moved
  · cases moved
  · cases moved
    exact normal_of_canonical normal.canonical.parent

theorem Normal.canonical_resolve (normal : session.Normal) (parts : List String) :
    Path.Canonical (session.resolve parts).toList := by
  have absolute : ∀ (names : List (List Char)) (a : List Char), Path.isAbsolute a = true →
      Path.isAbsolute (names.foldl Path.join a) = true := by
    intro names
    induction names with
    | nil => exact fun _ absolute => absolute
    | cons n rest ih => exact fun a absolute => ih _ (Path.isAbsolute_join absolute)
  rw [resolve, String.toList_ofList]
  exact Path.canonical_normalize
    (Path.rootSlashes_pos_iff.mpr (absolute (parts.map String.toList) _ normal.absolute))

theorem Normal.resolved (normal : session.Normal) (parts : List String) :
    Path.isAbsolute (session.resolve parts).toList = true ∧
      Path.normalize (session.resolve parts).toList = (session.resolve parts).toList := by
  have canonical := normal.canonical_resolve parts
  exact ⟨Path.rootSlashes_pos_iff.mp canonical.rooted, canonical.normalize_eq⟩

/-- What is resolved in a session that has moved to a folder is what the folder and it resolve to. -/
theorem resolve_resolve (session : Session) (folder : String) (parts : List String) :
    Session.resolve ⟨session.resolve [folder]⟩ parts = session.resolve (folder :: parts) := by
  rw [resolve, resolve, resolve, String.toList_ofList, List.map_cons, List.foldl_cons]
  exact congrArg String.ofList (Path.normalize_foldl_join _ (Path.normalize_normalize _))

theorem Normal.resolve_empty (normal : session.Normal) : session.resolve [""] = session.folder := by
  have same : session.resolve [""] =
    String.ofList (Path.normalize (Path.join session.folder.toList [])) := rfl
  rw [same, Path.normalize_join_nil, normal.normalized, String.ofList_toList]

theorem Normal.resolve_folder (normal : session.Normal) (elsewhere : Session) :
    elsewhere.resolve [session.folder] = session.folder := by
  rw [resolve, List.map_singleton, List.foldl_cons, List.foldl_nil, Path.join,
    if_pos normal.absolute, normal.normalized, String.ofList_toList]

/-! How deep a session is. -/

/-- How many names lead to the folder from the root. -/
def depth (session : Session) : Nat := (Path.solid session.folder.toList).length

theorem Normal.drop_eq (normal : session.Normal) :
    session.depth = 0 ∧ session.drop = .error (.atRoot session.folder) ∨
      ∃ above, session.drop = .ok above ∧ above.depth + 1 = session.depth := by
  obtain ⟨folder⟩ := session
  have canonical := normal.canonical
  generalize path : String.toList folder = chars at canonical
  obtain rfl : folder = String.ofList chars := by rw [← path, String.ofList_toList]
  rw [depth, Session.drop, String.toList_ofList]
  cases canonical with
  | root slashes =>
      rw [Path.parent_slashes slashes, if_pos rfl]
      refine .inl ⟨?_, rfl⟩
      rcases slashes with rfl | rfl <;> decide
  | @join a n above clean =>
      have shorter : (Path.solid a).length + 1 = (Path.solid (Path.join a n)).length := by
        rw [clean.solid_join, List.length_append, List.length_singleton]
      rw [above.parent_join clean, if_neg]
      · refine .inr ⟨_, rfl, ?_⟩
        rw [depth, String.toList_ofList, shorter]
      · intro same
        have equal : (Path.solid a).length = (Path.solid (Path.join a n)).length := by
          rw [← String.ofList_injective same]
        omega

theorem Normal.resolve_name (normal : session.Normal) (clean : Path.Clean name.toList) :
    session.resolve [name] = joinName session.folder name := by
  rw [resolve, joinName]
  simp only [List.map_cons, List.map_nil, List.foldl_cons, List.foldl_nil]
  rw [clean.normalize_join (Path.rootSlashes_pos_iff.mpr normal.absolute), normal.normalized]

/-- A session that has moved to an entry of its folder moves back to where it was. -/
theorem Normal.drop_use {store : Store} {session' : Session} (normal : session.Normal)
    (clean : Path.Clean name.toList) (moved : session.use store name = .ok session') :
    session'.drop = .ok session := by
  rw [Session.use, normal.resolve_name clean] at moved
  split at moved
  · cases moved
    rw [Session.drop, joinName, String.toList_ofList, normal.canonical.parent_join clean,
      String.ofList_toList, if_neg]
    intro same
    have longer := congrArg (fun path => (Path.solid path.toList).length) same
    simp only [String.toList_ofList, clean.solid_join, List.length_append,
      List.length_singleton] at longer
    omega
  · cases moved

theorem Normal.resolve_below (normal : session.Normal) (clean : Path.Clean name.toList)
    (target : String) :
    session.resolve [target, name] = joinName (session.resolve [target]) name := by
  have rooted := Path.rootSlashes_pos_iff.mpr
    (Path.isAbsolute_join (b := target.toList) normal.absolute)
  rw [resolve, resolve, joinName, String.toList_ofList]
  simp only [List.map_cons, List.map_nil, List.foldl_cons, List.foldl_nil]
  rw [clean.normalize_join rooted]

end Session

theorem Store.hasNul_joinName {folder name : String} (clean : Path.Clean name.toList) :
    hasNul (joinName folder name) = (hasNul folder || hasNul name) := by
  rw [hasNul, joinName, String.toList_ofList]
  rcases Path.join_eq clean.relative folder.toList with ⟨same, _⟩ | ⟨same, _⟩ <;> rw [same]
  · simp [hasNul]
  · simp [hasNul]

end FileQuery
