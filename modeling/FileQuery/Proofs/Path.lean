import FileQuery.Path
import FileQuery.Store.Walk
import Mathlib.Data.List.TakeWhile

/-! Paths with one more name. A clean name is one part, that normalising leaves where it is, so what a
path with a clean name leads to is one step from what the path itself leads to. -/
set_option autoImplicit false
namespace FileQuery.Path

structure Clean (n : List Char) : Prop where
  nonempty : n ≠ []
  slashless : '/' ∉ n
  noDot : n ≠ ['.']
  noDots : n ≠ ['.', '.']

instance (n : List Char) : Decidable (Clean n) :=
  decidable_of_iff (n ≠ [] ∧ '/' ∉ n ∧ n ≠ ['.'] ∧ n ≠ ['.', '.'])
    ⟨fun ⟨nonempty, slashless, noDot, noDots⟩ => ⟨nonempty, slashless, noDot, noDots⟩,
      fun clean => ⟨clean.nonempty, clean.slashless, clean.noDot, clean.noDots⟩⟩

/-- The parts between slashes that are not empty. -/
def solid (s : List Char) : List (List Char) := (split s).filter fun p => !p.isEmpty

theorem split_cons {c : Char} (plain : c ≠ '/') (r : List Char) :
    ∃ p ps, split r = p :: ps ∧ split (c :: r) = (c :: p) :: ps := by
  induction r generalizing c with
  | nil => exact ⟨[], [], rfl, by simp [split, plain]⟩
  | cons d r ih =>
      by_cases slash : d = '/'
      · exact ⟨[], split r, by simp [split, slash], by simp [split, slash, plain]⟩
      · obtain ⟨p, ps, _, same⟩ := ih slash
        exact ⟨d :: p, ps, same, by rw [split, if_neg plain, same]⟩

theorem split_of_slashless {n : List Char} (slashless : '/' ∉ n) : split n = [n] := by
  induction n with
  | nil => rfl
  | cons c r ih =>
      rw [List.mem_cons, not_or] at slashless
      rw [split, if_neg (Ne.symm slashless.1), ih slashless.2]

theorem split_append_slash (a b : List Char) : split (a ++ '/' :: b) = split a ++ split b := by
  induction a with
  | nil => simp [split]
  | cons c r ih =>
      by_cases slash : c = '/'
      · simp [split, slash, ih]
      · obtain ⟨p, ps, parts, same⟩ := split_cons slash r
        obtain ⟨q, qs, parts', same'⟩ := split_cons slash (r ++ '/' :: b)
        rw [ih, parts, List.cons_append, List.cons.injEq] at parts'
        rw [same, List.cons_append, same', ← parts'.1, ← parts'.2, List.cons_append]

theorem slashless_of_mem_split {s p : List Char} (part : p ∈ split s) : '/' ∉ p := by
  induction s generalizing p with
  | nil =>
      rw [split, List.mem_singleton] at part
      simp [part]
  | cons c r ih =>
      by_cases slash : c = '/'
      · rw [split, if_pos slash, List.mem_cons] at part
        rcases part with rfl | part
        · simp
        · exact ih part
      · obtain ⟨q, qs, parts, same⟩ := split_cons slash r
        rw [same, List.mem_cons] at part
        rcases part with rfl | part
        · rw [List.mem_cons, not_or]
          exact ⟨Ne.symm slash, ih (by simp [parts])⟩
        · exact ih (by simp [parts, part])

theorem getLast?_of_slashless {p : List Char} (nonempty : p ≠ []) (slashless : '/' ∉ p) :
    ∃ c, c ≠ '/' ∧ ∀ b : List Char, (b ++ p).getLast? = .some c := by
  obtain ⟨c, last⟩ : ∃ c, p.getLast? = .some c :=
    Option.ne_none_iff_exists'.mp (by simpa using nonempty)
  refine ⟨c, ?_, fun b => by rw [List.getLast?_append, last, Option.some_or]⟩
  rintro rfl
  exact slashless (List.mem_of_getLast? last)

theorem solid_append_slash (a b : List Char) : solid (a ++ '/' :: b) = solid a ++ solid b := by
  rw [solid, split_append_slash, List.filter_append]
  rfl

section
variable {b : List Char} (relative : isAbsolute b = false)
include relative

/-- A relative path stands at the end of a joined path, behind a slash if there is anything before. -/
theorem join_eq (a : List Char) :
    join a b = a ++ b ∧ (a = [] ∨ ∃ c, a = c ++ ['/']) ∨
      join a b = a ++ '/' :: b ∧ a ≠ [] ∧ a.getLast? ≠ some '/' := by
  simp only [join, relative, Bool.false_eq_true, if_false, Bool.or_eq_true, List.isEmpty_iff, beq_iff_eq]
  by_cases ends : a = [] ∨ a.getLast? = some '/'
  · rw [if_pos ends]
    refine .inl ⟨rfl, ends.imp_right fun last => ?_⟩
    exact List.getLast?_eq_some_iff.mp last
  · rw [if_neg ends]
    exact .inr ⟨rfl, not_or.mp ends⟩

theorem solid_join (a : List Char) : solid (join a b) = solid a ++ solid b := by
  rcases join_eq relative a with ⟨same, rfl | ⟨c, rfl⟩⟩ | ⟨same, _⟩
  · rw [same, List.nil_append]
    rfl
  · have slash : solid (c ++ ['/']) = solid c := by
      rw [solid_append_slash]
      exact List.append_nil _
    rw [same, slash, List.append_assoc, List.singleton_append, solid_append_slash]
  · rw [same, solid_append_slash]

theorem rootSlashes_join (a : List Char) : rootSlashes (join a b) = rootSlashes a := by
  have first : b.takeWhile (· == '/') = [] := by
    cases b with
    | nil => rfl
    | cons c r =>
        rw [isAbsolute, List.head?_cons, beq_eq_false_iff_ne, ne_eq, Option.some.injEq] at relative
        simp [relative]
  have same : (join a b).takeWhile (· == '/') = a.takeWhile (· == '/') := by
    rcases join_eq relative a with ⟨same, _⟩ | ⟨same, some, plain⟩
    · rw [same, List.takeWhile_append, first]
      split
      · next all =>
          rw [List.append_nil, (List.takeWhile_prefix _).eq_of_length all]
      · rfl
    · rw [same, List.takeWhile_append, if_neg]
      intro all
      have slashes := List.takeWhile_eq_self_iff.mp ((List.takeWhile_prefix _).eq_of_length all)
      obtain ⟨c, last⟩ : ∃ c, a.getLast? = .some c :=
        Option.ne_none_iff_exists'.mp (by simpa using some)
      have slash := slashes c (List.mem_of_getLast? last)
      rw [beq_iff_eq] at slash
      exact plain (slash ▸ last)
  rw [rootSlashes, rootSlashes, same]

end

section
variable {n : List Char} (clean : Clean n)
include clean

theorem Clean.relative : isAbsolute n = false := by
  rw [isAbsolute, beq_eq_false_iff_ne]
  intro first
  exact clean.slashless (List.mem_of_head? first)

theorem Clean.solid_eq : solid n = [n] := by
  rw [solid, split_of_slashless clean.slashless]
  simp [clean.nonempty]

theorem Clean.solid_join (a : List Char) : solid (join a n) = solid a ++ [n] := by
  rw [Path.solid_join clean.relative, clean.solid_eq]

theorem Clean.baseName_join (a : List Char) : baseName (join a n) = n := by
  have inside : ∀ c ∈ n.reverse, (c != '/') = true := by
    intro c member
    rw [bne_iff_ne]
    rintro rfl
    exact clean.slashless (by simpa using member)
  rcases join_eq clean.relative a with ⟨same, rfl | ⟨b, rfl⟩⟩ | ⟨same, _⟩
  all_goals
    rw [same, baseName]
    simp [List.takeWhile_append_of_pos inside, List.takeWhile_eq_self_iff.mpr inside]

theorem Clean.getLast?_join (a : List Char) : (join a n).getLast? ≠ some '/' := by
  obtain ⟨c, plain, last⟩ := getLast?_of_slashless clean.nonempty clean.slashless
  intro ends
  have same : some c = some '/' := by
    rw [← ends]
    rcases join_eq clean.relative a with ⟨same, _⟩ | ⟨same, _⟩
    · rw [same, last]
    · rw [same, List.append_cons, last]
  exact plain (Option.some.inj same)

theorem Clean.isAbsolute_join {a : List Char} (some : a ≠ []) :
    isAbsolute (join a n) = isAbsolute a := by
  obtain ⟨c, r, rfl⟩ := List.exists_cons_of_ne_nil some
  rcases join_eq clean.relative (c :: r) with ⟨same, _⟩ | ⟨same, _⟩ <;> rw [same] <;> rfl

end

/-! Normalising. -/

/-- The parts that are left of a path, last first. -/
def stack (a : List Char) : List (List Char) :=
  (split a).foldl (pushPart (decide (0 < rootSlashes a))) []

theorem foldl_pushPart_filter (rooted : Bool) (parts : List (List Char)) :
    ∀ held, (parts.filter fun p => !p.isEmpty).foldl (pushPart rooted) held =
      parts.foldl (pushPart rooted) held := by
  induction parts with
  | nil => exact fun _ => rfl
  | cons p ps ih =>
      intro held
      cases p with
      | nil => simpa [pushPart] using ih held
      | cons c r => exact ih _

theorem mem_foldl_pushPart {rooted : Bool} {parts : List (List Char)} :
    ∀ {held : List (List Char)} {p : List Char}, p ∈ parts.foldl (pushPart rooted) held →
      p ∈ held ∨ p ∈ parts ∧ p ≠ [] := by
  induction parts with
  | nil => exact fun member => .inl member
  | cons q qs ih =>
      intro held p member
      rcases ih member with member | ⟨member, some⟩
      · unfold pushPart at member
        split at member
        · exact .inl member
        · next kept =>
            have own (same : p = q) : p ∈ held ∨ p ∈ q :: qs ∧ p ≠ [] :=
              .inr ⟨by simp [same], same ▸ (not_or.mp kept).1⟩
            split at member
            · split at member
              · split at member
                · cases member
                · exact own (by simpa using member)
              · split at member
                · rcases List.mem_cons.mp member with same | member
                  · exact own same
                  · exact .inl member
                · exact .inl (List.mem_cons_of_mem _ member)
            · rcases List.mem_cons.mp member with same | member
              · exact own same
              · exact .inl member
      · exact .inr ⟨List.mem_cons_of_mem _ member, some⟩

theorem of_mem_stack {a p : List Char} (member : p ∈ stack a) : p ≠ [] ∧ '/' ∉ p := by
  rcases mem_foldl_pushPart member with member | ⟨part, some⟩
  · cases member
  · exact ⟨some, slashless_of_mem_split part⟩

theorem joinParts_concat {parts : List (List Char)} (some : parts ≠ []) (n : List Char) :
    joinParts (parts ++ [n]) = joinParts parts ++ '/' :: n := by
  induction parts with
  | nil => exact absurd rfl some
  | cons p ps ih =>
      cases ps with
      | nil => rfl
      | cons q qs =>
          have rest := ih (by simp)
          simp only [List.cons_append, joinParts] at rest ⊢
          rw [rest, List.append_assoc, List.cons_append]

theorem getLast?_joinParts {parts : List (List Char)} (plain : ∀ p ∈ parts, p ≠ [] ∧ '/' ∉ p)
    (some : parts ≠ []) : ∃ c, c ≠ '/' ∧ (joinParts parts).getLast? = .some c := by
  rcases List.eq_nil_or_concat parts with rfl | ⟨front, p, rfl⟩
  · exact absurd rfl some
  · rw [List.concat_eq_append] at plain ⊢
    obtain ⟨nonempty, slashless⟩ := plain p (by simp)
    obtain ⟨c, plain, last⟩ := getLast?_of_slashless nonempty slashless
    refine ⟨c, plain, ?_⟩
    by_cases alone : front = []
    · subst alone
      exact last []
    · rw [joinParts_concat alone, List.append_cons]
      exact last _

theorem rootSlashes_le (a : List Char) : rootSlashes a ≤ 2 := by
  rw [rootSlashes]
  split <;> omega

theorem stack_eq (a : List Char) :
    stack a = (solid a).foldl (pushPart (decide (0 < rootSlashes a))) [] := by
  rw [stack, solid, foldl_pushPart_filter]

theorem stack_join {b : List Char} (relative : isAbsolute b = false) (a : List Char) :
    stack (join a b) = (solid b).foldl (pushPart (decide (0 < rootSlashes a))) (stack a) := by
  rw [stack_eq, stack_eq, rootSlashes_join relative, solid_join relative, List.foldl_append]

theorem normalize_of_rooted {a : List Char} (rooted : 0 < rootSlashes a) :
    normalize a = List.replicate (rootSlashes a) '/' ++ joinParts (stack a).reverse := by
  unfold normalize
  rw [stack]
  dsimp only
  rw [if_neg]
  rw [List.isEmpty_iff, List.append_eq_nil_iff, List.replicate_eq_nil_iff]
  omega

section
variable {n : List Char} (clean : Clean n)
include clean

theorem Clean.rootSlashes_join (a : List Char) : rootSlashes (join a n) = rootSlashes a :=
  Path.rootSlashes_join clean.relative a

theorem Clean.stack_join (a : List Char) : stack (join a n) = n :: stack a := by
  rw [Path.stack_join clean.relative, clean.solid_eq, List.foldl_cons, List.foldl_nil]
  generalize stack a = held
  unfold pushPart
  rw [if_neg (not_or.mpr ⟨clean.nonempty, clean.noDot⟩), if_neg clean.noDots]

theorem Clean.join_slashes {k : Nat} (rooted : 0 < k) {parts : List (List Char)}
    (plain : ∀ p ∈ parts, p ≠ [] ∧ '/' ∉ p) :
    join (List.replicate k '/' ++ joinParts parts) n =
      List.replicate k '/' ++ joinParts (parts ++ [n]) := by
  by_cases top : parts = []
  · subst top
    have ends : (List.replicate k '/').getLast? = .some '/' := by
      rw [List.getLast?_replicate, if_neg (by omega)]
    simp only [List.nil_append, joinParts, List.append_nil]
    rcases join_eq clean.relative (List.replicate k '/') with ⟨same, _⟩ | ⟨_, _, other⟩
    · exact same
    · exact absurd ends other
  · obtain ⟨c, other, ends⟩ := getLast?_joinParts plain top
    have last : (List.replicate k '/' ++ joinParts parts).getLast? = .some c := by
      rw [List.getLast?_append, ends, Option.some_or]
    rw [joinParts_concat top, ← List.append_assoc]
    rcases join_eq clean.relative (List.replicate k '/' ++ joinParts parts) with
      ⟨_, empty | ⟨b, same⟩⟩ | ⟨same, _⟩
    · rw [empty] at last
      cases last
    · rw [same, List.getLast?_concat, Option.some.injEq] at last
      exact absurd last.symm other
    · exact same

theorem Clean.normalize_join {a : List Char} (rooted : 0 < rootSlashes a) :
    normalize (join a n) = join (normalize a) n := by
  have slashes := clean.rootSlashes_join a
  have rooted' : 0 < rootSlashes (join a n) := by omega
  rw [normalize_of_rooted rooted', slashes, clean.stack_join, List.reverse_cons,
    normalize_of_rooted rooted, clean.join_slashes rooted]
  exact fun p member => of_mem_stack (List.mem_reverse.mp member)

end

end FileQuery.Path

namespace FileQuery.Store

open FileQuery.Path (Clean solid)

theorem pathNames_eq (a : List Char) :
    ∃ dots, pathNames a = (solid a).map String.ofList ++ dots ∧ (dots = [] ∨ dots = ["."]) := by
  rw [pathNames, List.map_append]
  refine ⟨_, rfl, ?_⟩
  split
  · exact .inr rfl
  · exact .inl rfl

theorem pathNames_join {n : List Char} (clean : Clean n) (a : List Char) :
    pathNames (Path.join a n) = (solid a).map String.ofList ++ [String.ofList n] := by
  have parts := clean.solid_join a
  have ends := clean.getLast?_join a
  rw [solid] at parts
  simp [pathNames, parts, ends]

end FileQuery.Store
