import FileQuery.Proofs.Session

/-! What a name is called last. A spelling that ends in a clean name keeps it when it is resolved, and
only such a spelling does (`Normal.resolve_last_iff`): one that ends in a slash or in dots is called
after nothing, while what it is resolved to is called after a name before them. -/
set_option autoImplicit false
namespace FileQuery

namespace Path

theorem slashless_baseName (s : List Char) : '/' ∉ baseName s := by
  intro member
  rw [baseName, List.mem_reverse] at member
  simpa using List.mem_takeWhile_imp member

/-- What follows the last slash stands at the end of a path, behind a slash or alone. -/
theorem exists_baseName (s : List Char) :
    ∃ before, s = before ++ baseName s ∧ (before = [] ∨ ∃ c, before = c ++ ['/']) := by
  refine ⟨(s.reverse.dropWhile (· != '/')).reverse, ?_, ?_⟩
  · rw [baseName, ← List.reverse_append, List.takeWhile_append_dropWhile, List.reverse_reverse]
  · cases left : s.reverse.dropWhile (· != '/') with
    | nil => exact .inl rfl
    | cons c r =>
        have slash := List.head?_dropWhile_not (· != '/') s.reverse
        rw [left] at slash
        obtain rfl : c = '/' := by simpa using slash
        exact .inr ⟨r.reverse, by simp⟩

theorem join_append {c : List Char} (some : c ≠ []) (a b : List Char) :
    join a c ++ b = join a (c ++ b) := by
  obtain ⟨d, r, rfl⟩ := List.exists_cons_of_ne_nil some
  have same : isAbsolute (d :: r ++ b) = isAbsolute (d :: r) := rfl
  rw [join, join, same]
  split
  · rfl
  · split <;> simp

theorem join_of_ends (b : List Char) {n : List Char} (relative : isAbsolute n = false) :
    join (b ++ ['/']) n = b ++ ['/'] ++ n := by
  rcases join_eq relative (b ++ ['/']) with ⟨same, _⟩ | ⟨_, _, other⟩
  · exact same
  · exact absurd List.getLast?_concat other

theorem exists_join {a s : List Char} (rooted : 0 < rootSlashes a) (clean : Clean (baseName s)) :
    ∃ b, 0 < rootSlashes b ∧ join a s = join b (baseName s) := by
  obtain ⟨before, same, rfl | ⟨c, rfl⟩⟩ := exists_baseName s
  · exact ⟨a, rooted, congrArg (join a) same⟩
  · refine ⟨join a (c ++ ['/']), ?_, ?_⟩
    · rw [rootSlashes_pos_iff]
      exact isAbsolute_join (rootSlashes_pos_iff.mp rooted)
    · have ends : ∃ d, join a (c ++ ['/']) = d ++ ['/'] := by
        rw [join]
        split
        · exact ⟨c, rfl⟩
        · split
          · exact ⟨a ++ c, by simp⟩
          · exact ⟨a ++ '/' :: c, by simp⟩
      obtain ⟨d, joined⟩ := ends
      rw [joined, join_of_ends d clean.relative, ← joined, join_append (by simp), ← same]

theorem baseName_normalize_join {a s : List Char} (rooted : 0 < rootSlashes a)
    (clean : Clean (baseName s)) : baseName (normalize (join a s)) = baseName s := by
  obtain ⟨b, rooted', same⟩ := exists_join rooted clean
  rw [same, clean.normalize_join rooted', clean.baseName_join]

theorem Canonical.clean_baseName {a : List Char} (canonical : Canonical a) (some : baseName a ≠ []) :
    Clean (baseName a) := by
  cases canonical with
  | root slashes =>
      refine absurd ?_ some
      rcases slashes with rfl | rfl <;> decide
  | join _ clean => rwa [clean.baseName_join]

theorem clean_of_normalize_eq {a b n : List Char} (rooted : 0 < rootSlashes a) (slashless : '/' ∉ b)
    (clean : Clean n) (same : normalize (join a b) = normalize (join a n)) : Clean b := by
  by_contra other
  have relative : isAbsolute b = false := by
    rw [isAbsolute, beq_eq_false_iff_ne]
    exact fun first => slashless (List.mem_of_head? first)
  have shapes : b = [] ∨ b = ['.'] ∨ b = ['.', '.'] := by
    by_contra shapes
    rw [not_or, not_or] at shapes
    exact other ⟨shapes.1, slashless, shapes.2.1, shapes.2.2⟩
  have stacked : stack (join a b) = n :: stack a := by
    rw [← stack_normalize, same, stack_normalize, clean.stack_join]
  have size := congrArg List.length stacked
  rw [stack_join relative, decide_eq_true rooted, List.length_cons] at size
  rcases shapes with rfl | rfl | rfl
  · simp [solid, split] at size
  · simp [solid, split, pushPart] at size
  · have parts : solid ['.', '.'] = [['.', '.']] := by decide
    rw [parts, List.foldl_cons, List.foldl_nil] at size
    cases held : stack a with
    | nil => simp [held, pushPart] at size
    | cons top rest =>
        have noDots : top ≠ ['.', '.'] := by
          have kept : top ∈ (split a).foldl (pushPart true) [] := by
            rw [← decide_eq_true rooted, ← stack, held]
            exact List.mem_cons_self
          exact (clean_foldl_pushPart (fun p part => slashless_of_mem_split part) (by simp) top kept).noDots
        simp [held, pushPart, noDots] at size
        omega

end Path

namespace Session

variable {session : Session} {name target : String}

/-- What a name is called last, as it is spelled. -/
def lastName (name : String) : String := String.ofList (Path.baseName name.toList)

theorem Normal.lastName_resolve (normal : session.Normal) (clean : Path.Clean (Path.baseName name.toList)) :
    lastName (session.resolve [name]) = lastName name := by
  rw [lastName, lastName, resolve, String.toList_ofList]
  exact congrArg String.ofList
    (Path.baseName_normalize_join (Path.rootSlashes_pos_iff.mpr normal.absolute) clean)

theorem Normal.resolve_last_iff (normal : session.Normal) (target : String)
    (some : lastName (session.resolve [name]) ≠ "") :
    session.resolve [target, lastName name] =
        session.resolve [target, lastName (session.resolve [name])] ↔
      Path.Clean (Path.baseName name.toList) := by
  constructor
  · intro same
    have absolute : Path.isAbsolute (Path.join session.folder.toList target.toList) = true :=
      Path.isAbsolute_join normal.absolute
    have nonempty : Path.baseName (session.resolve [name]).toList ≠ [] := fun none =>
      some (by rw [lastName, none])
    have clean := (normal.canonical_resolve [name]).clean_baseName nonempty
    rw [resolve, resolve] at same
    have paths := String.ofList_injective same
    simp only [List.map_cons, List.map_nil, List.foldl_cons, List.foldl_nil, lastName,
      String.toList_ofList] at paths
    exact Path.clean_of_normalize_eq (Path.rootSlashes_pos_iff.mpr absolute)
      (Path.slashless_baseName _) clean paths
  · intro clean
    rw [normal.lastName_resolve clean]

end Session

end FileQuery
