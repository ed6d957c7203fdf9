import FileQuery.Proofs.Path

/-! # Normalised paths

A path is known by the slashes at its root and by the parts that are left of it, and normalising keeps
both. So normalising a second time does nothing (`normalize_normalize`), and what is joined to a path
may as well be joined to it once it is normalised (`normalize_join_normalize`). -/
set_option autoImplicit false
namespace FileQuery.Path

/-- Parts that were kept when they were taken in, each on top of those before it. -/
def Settled (rooted : Bool) : List (List Char) → Prop
  | [] => True
  | p :: rest => pushPart rooted rest p = p :: rest ∧ Settled rooted rest

section
variable {rooted : Bool} {held : List (List Char)}

/-- To take a part in keeps what is held, takes the top off, or puts the part on top. -/
theorem pushPart_cases (rooted : Bool) (held : List (List Char)) (p : List Char) :
    pushPart rooted held p = held ∨ pushPart rooted held p = held.tail ∨
      pushPart rooted held p = p :: held := by
  unfold pushPart
  split
  · exact .inl rfl
  · split
    · cases held with
      | nil =>
          dsimp only
          split
          · exact .inl rfl
          · exact .inr (.inr rfl)
      | cons top rest =>
          dsimp only
          split
          · exact .inr (.inr rfl)
          · exact .inr (.inl rfl)
    · exact .inr (.inr rfl)

theorem Settled.pushPart (settled : Settled rooted held) (p : List Char) :
    Settled rooted (pushPart rooted held p) := by
  rcases pushPart_cases rooted held p with same | same | kept
  · rwa [same]
  · rw [same]
    cases held with
    | nil => exact settled
    | cons top rest => exact settled.2
  · rw [kept]
    exact ⟨kept, settled⟩

theorem settled_foldl (parts : List (List Char)) : ∀ {held : List (List Char)},
    Settled rooted held → Settled rooted (parts.foldl (Path.pushPart rooted) held) := by
  induction parts with
  | nil => exact fun settled => settled
  | cons p rest ih => exact fun settled => ih (settled.pushPart p)

theorem Settled.foldl_reverse (settled : Settled rooted held) :
    held.reverse.foldl (Path.pushPart rooted) [] = held := by
  induction held with
  | nil => rfl
  | cons p rest ih =>
      rw [List.reverse_cons, List.foldl_append, ih settled.2, List.foldl_cons, List.foldl_nil,
        settled.1]

end

/-! The path of some parts. -/

theorem solid_slashes (k : Nat) (s : List Char) : solid (List.replicate k '/' ++ s) = solid s := by
  induction k with
  | zero => rfl
  | succ k ih =>
      rw [List.replicate_succ, List.cons_append, ← List.nil_append ('/' :: _), solid_append_slash, ih]
      rfl

section
variable {parts : List (List Char)} (plain : ∀ p ∈ parts, p ≠ [] ∧ '/' ∉ p)
include plain

theorem solid_joinParts : solid (joinParts parts) = parts := by
  induction parts with
  | nil => rfl
  | cons p rest ih =>
      rw [List.forall_mem_cons] at plain
      have own : solid p = [p] := by
        rw [solid, split_of_slashless plain.1.2]
        simp [plain.1.1]
      cases rest with
      | nil => exact own
      | cons q rest =>
          rw [joinParts, solid_append_slash, own, ih plain.2, List.singleton_append]
          exact List.cons_ne_nil q rest

theorem joinParts_eq_nil : joinParts parts = [] ↔ parts = [] := by
  constructor
  · intro empty
    rw [← solid_joinParts plain, empty]
    rfl
  · rintro rfl
    rfl

theorem takeWhile_joinParts : (joinParts parts).takeWhile (· == '/') = [] := by
  cases parts with
  | nil => rfl
  | cons p rest =>
      obtain ⟨some, slashless⟩ := plain p (by simp)
      obtain ⟨c, r, rfl⟩ := List.exists_cons_of_ne_nil some
      have first : c ≠ '/' := by
        rintro rfl
        exact slashless (by simp)
      cases rest <;> simp [joinParts, first]

end

/-! What normalising keeps. -/

theorem plain_stack (a : List Char) : ∀ p ∈ (stack a).reverse, p ≠ [] ∧ '/' ∉ p :=
  fun _ member => of_mem_stack (List.mem_reverse.mp member)

theorem normalize_eq (a : List Char) :
    rootSlashes a = 0 ∧ stack a = [] ∧ normalize a = ['.'] ∨
      normalize a = List.replicate (rootSlashes a) '/' ++ joinParts (stack a).reverse := by
  have same : normalize a =
      if (List.replicate (rootSlashes a) '/' ++ joinParts (stack a).reverse).isEmpty then ['.']
      else List.replicate (rootSlashes a) '/' ++ joinParts (stack a).reverse := rfl
  rw [same]
  split
  · next empty =>
      rw [List.isEmpty_iff, List.append_eq_nil_iff, List.replicate_eq_nil_iff,
        joinParts_eq_nil (plain_stack a), List.reverse_eq_nil_iff] at empty
      exact .inl ⟨empty.1, empty.2, rfl⟩
  · exact .inr rfl

theorem rootSlashes_normalize (a : List Char) : rootSlashes (normalize a) = rootSlashes a := by
  rcases normalize_eq a with ⟨none, _, same⟩ | same
  · rw [same, none]
    rfl
  · have few := rootSlashes_le a
    have slashes : (normalize a).takeWhile (· == '/') = List.replicate (rootSlashes a) '/' := by
      rw [same, List.takeWhile_append_of_pos (by simp), takeWhile_joinParts (plain_stack a),
        List.append_nil]
    rw [rootSlashes, slashes, List.length_replicate]
    split <;> omega

theorem stack_normalize (a : List Char) : stack (normalize a) = stack a := by
  rcases normalize_eq a with ⟨_, none, same⟩ | same
  · rw [same, none]
    rfl
  · have settled : Settled (decide (0 < rootSlashes a)) (stack a) := settled_foldl _ trivial
    rw [stack_eq, rootSlashes_normalize, same, solid_slashes, solid_joinParts (plain_stack a)]
    exact settled.foldl_reverse

theorem normalize_congr {a b : List Char} (slashes : rootSlashes a = rootSlashes b)
    (parts : stack a = stack b) : normalize a = normalize b := by
  rw [stack, stack] at parts
  rw [normalize, normalize, parts, slashes]

theorem normalize_normalize (a : List Char) : normalize (normalize a) = normalize a :=
  normalize_congr (rootSlashes_normalize a) (stack_normalize a)

theorem normalize_join_normalize (a b : List Char) :
    normalize (join (normalize a) b) = normalize (join a b) := by
  cases relative : isAbsolute b with
  | true => rw [join, if_pos relative, join, if_pos relative]
  | false =>
      apply normalize_congr
      · rw [rootSlashes_join relative, rootSlashes_join relative, rootSlashes_normalize]
      · rw [stack_join relative, stack_join relative, stack_normalize, rootSlashes_normalize]

theorem normalize_join_nil (a : List Char) : normalize (join a []) = normalize a :=
  normalize_congr (rootSlashes_join rfl a) (stack_join rfl a)

theorem normalize_foldl_join (parts : List (List Char)) : ∀ {a b : List Char},
    normalize a = normalize b → normalize (parts.foldl join a) = normalize (parts.foldl join b) := by
  induction parts with
  | nil => exact fun same => same
  | cons p rest ih =>
      intro a b same
      apply ih
      rw [← normalize_join_normalize a, same, normalize_join_normalize b]

end FileQuery.Path
