import FileQuery.Proofs.Where.Cuts

/-! # How conditions stand in a clause

A clause that is not all blanks and keywords is a row of its conditions with blanks and keywords
between and around them: only AND between conditions of one group, an OR between groups (`Laid`).
Written with single blanks, what a clause is parsed to is parsed to itself (`parseClause_normal`). -/
set_option autoImplicit false
namespace FileQuery.Where

/-! ## Rows of runs -/

section
variable {β : Type} {p q : Piece → Bool}

def Loose (q : Piece → Bool) (js : List Piece) : Prop := ∀ x ∈ js, x.isGap = true ∨ q x = true

/-- What stands between two items: loose runs, one of which has a property. -/
structure Joint (p q : Piece → Bool) (js : List Piece) : Prop where
  loose : Loose q js
  parted : ∃ x ∈ js, p x = true

/-- Items in a row of runs, with a joint between each two. -/
inductive Strung (item : List Piece → β → Prop) (joint : List Piece → Prop) :
    List Piece → List β → Prop
  | last {ps : List Piece} {a : β} (here : item ps a) : Strung item joint ps [a]
  | more {ps js qs : List Piece} {a : β} {rest : List β} (here : item ps a) (between : joint js)
      (later : Strung item joint qs rest) : Strung item joint (ps ++ (js ++ qs)) (a :: rest)

/-- Whether runs are an item with loose runs around it, or loose runs only and the item is empty. -/
def Placed (q : Piece → Bool) (item : List Piece → List β → Prop) (ps : List Piece) (a : List β) :
    Prop :=
  a = [] ∧ Loose q ps ∨
    a ≠ [] ∧ ∃ lead core trail, ps = lead ++ (core ++ trail) ∧ Loose q lead ∧ Loose q trail ∧ item core a

theorem loose_append {xs ys : List Piece} : Loose q (xs ++ ys) ↔ Loose q xs ∧ Loose q ys :=
  List.forall_mem_append

theorem loose_cons {x : Piece} {xs : List Piece} (own : q x = true) : Loose q (x :: xs) ↔ Loose q xs := by
  simp [Loose, own]

theorem Loose.mono {xs : List Piece} (weaker : ∀ x, p x = true → q x = true) (loose : Loose p xs) :
    Loose q xs :=
  fun x member => (loose x member).imp id (weaker x)

theorem loose_gaps (gap : List Char) : Loose q (gap.map Piece.gap) := by
  intro x member
  obtain ⟨c, _, rfl⟩ := List.mem_map.mp member
  exact .inl rfl

theorem Placed.mono {item : List Piece → List β → Prop} {ps : List Piece} {a : List β}
    (weaker : ∀ x, p x = true → q x = true) (placed : Placed p item ps a) : Placed q item ps a := by
  rcases placed with ⟨none, loose⟩ | ⟨some, lead, core, trail, same, first, last, here⟩
  · exact .inl ⟨none, loose.mono weaker⟩
  · exact .inr ⟨some, lead, core, trail, same, first.mono weaker, last.mono weaker, here⟩

theorem placed_splitOnP {item : List Piece → List β → Prop} {f : List Piece → List β}
    (below : ∀ x, p x = true → q x = true) (ps : List Piece) :
    (∀ g ∈ ps.splitOnP p, Placed q item g (f g)) →
      Placed q (Strung item (Joint p q)) ps
        (((ps.splitOnP p).map f).filter fun a => !a.isEmpty) := by
  induction ps using splitOnP_induction (p := p) with
  | whole ps free =>
      intro each
      rw [List.splitOnP_eq_singleton free] at each ⊢
      rcases each ps (by simp) with ⟨none, loose⟩ | ⟨some, lead, core, trail, same, first, last, here⟩
      · exact .inl ⟨by simp [none], loose⟩
      · refine .inr ⟨by simp [some], lead, core, trail, same, first, last, ?_⟩
        simpa [some] using Strung.last here
  | cut before x behind free own ih =>
      intro each
      rw [List.splitOnP_append_cons _ _ own, List.splitOnP_eq_singleton free,
        List.singleton_append] at each ⊢
      rw [List.forall_mem_cons] at each
      have rest := ih each.2
      have cut := below x own
      rw [List.map_cons, List.filter_cons]
      generalize ((behind.splitOnP p).map f).filter (fun a => !a.isEmpty) = later at rest ⊢
      rcases each.1 with ⟨none, loose⟩ | ⟨some, lead, core, trail, rfl, first, last, here⟩
      · rw [if_neg (by simp [none])]
        rcases rest with ⟨none', loose'⟩ | ⟨some', lead', core', trail', rfl, first', last', here'⟩
        · exact .inl ⟨none', loose_append.mpr ⟨loose, (loose_cons cut).mpr loose'⟩⟩
        · refine .inr ⟨some', before ++ x :: lead', core', trail', by simp, ?_, last', here'⟩
          exact loose_append.mpr ⟨loose, (loose_cons cut).mpr first'⟩
      · rw [if_pos (by simp [some])]
        rcases rest with ⟨rfl, loose'⟩ | ⟨_, lead', core', trail', rfl, first', last', here'⟩
        · refine .inr ⟨by simp, lead, core, trail ++ x :: behind, by simp, first, ?_, .last here⟩
          exact loose_append.mpr ⟨last, (loose_cons cut).mpr loose'⟩
        · have joint : Joint p q (trail ++ x :: lead') :=
            ⟨loose_append.mpr ⟨last, (loose_cons cut).mpr first'⟩, x, by simp, own⟩
          exact .inr ⟨by simp, lead, core ++ ((trail ++ x :: lead') ++ core'), trail', by simp, first,
            last', .more here joint here'⟩

end

/-! ## The conditions of a clause -/

/-- Whether a run is AND or OR, outside strings and parentheses. -/
def isConnective (x : Piece) : Bool := x.isKeyword "AND" || x.isKeyword "OR"

theorem cutsWords_isConnective : CutsWords isConnective := by
  intro x cut
  rcases Bool.or_eq_true_iff.mp cut with conj | disj
  · exact cutsWords_isKeyword bare_and x conj
  · exact cutsWords_isKeyword bare_or x disj

structure Reads (ps : List Piece) (c : List Char) : Prop extends Lone c where
  runs : Piece.scan {} 0 c = ps

def Conjunctive : List Piece → List (List Char) → Prop :=
  Strung Reads (Joint (Piece.isKeyword "AND") (Piece.isKeyword "AND"))

/-- Conjunctions with OR between them, and perhaps AND. -/
def Disjunctive : List Piece → List (List (List Char)) → Prop :=
  Strung Conjunctive (Joint (Piece.isKeyword "OR") isConnective)

theorem mem_of_mem_splitOnP {p : Piece → Bool} (ps : List Piece) :
    ∀ g ∈ ps.splitOnP p, ∀ x ∈ g, x ∈ ps ∧ p x = false := by
  induction ps using splitOnP_induction (p := p) with
  | whole ps free =>
      intro g member x inside
      rw [List.splitOnP_eq_singleton free, List.mem_singleton] at member
      subst member
      exact ⟨inside, free x inside⟩
  | cut before x behind free own ih =>
      rw [List.splitOnP_append_cons _ _ own, List.splitOnP_eq_singleton free, List.singleton_append,
        List.forall_mem_cons]
      refine ⟨fun y inside => ⟨by simp [inside], free y inside⟩, fun g member y inside => ?_⟩
      have found := ih g member y inside
      exact ⟨by simp [found.1], found.2⟩

/-- Runs without keywords are a condition with blanks around it, or blanks only. -/
theorem placed_stretch {g : List Piece} (own : Piece.scan {} 0 (g.flatMap Piece.text) = g)
    (settled : Settled (g.flatMap Piece.text)) (plain : ∀ x ∈ g, isConnective x = false)
    (q : Piece → Bool) : Placed q Reads g (stretch g) := by
  obtain ⟨lead, trail, _, _, _, runs⟩ := scan_trim settled
  rw [own] at runs
  by_cases empty : stretch g = []
  · refine .inl ⟨empty, ?_⟩
    rw [stretch] at empty
    rw [runs, empty]
    exact loose_append.mpr ⟨loose_gaps lead, loose_gaps trail⟩
  · have without {keyword : String} (other : ∀ x, isConnective x = false → x.isKeyword keyword = false) :
        Free keyword (stretch g) := by
      intro x member
      refine other x (plain x ?_)
      rw [runs]
      exact List.mem_append_right _ (List.mem_append_left _ member)
    exact .inr ⟨empty, _, _, _, runs, loose_gaps lead, loose_gaps trail, ⟨empty, Text.trim_trim _,
      without fun x other => (Bool.or_eq_false_iff.mp other).1,
      without fun x other => (Bool.or_eq_false_iff.mp other).2⟩, rfl⟩

theorem placed_cuts {s : List Char} (settled : Settled s) :
    Placed isConnective Disjunctive (Piece.scan {} 0 s) (cuts (Piece.scan {} 0 s)) := by
  refine placed_splitOnP (fun x own => ?_) _ fun g member => ?_
  · rw [isConnective, own, Bool.or_true]
  · have read := (scan_of_mem_splitOnP (cutsWords_isKeyword bare_or) _ s rfl settled).1 g member
    refine Placed.mono (fun x own => ?_) (placed_splitOnP (fun x own => own) g fun h inside => ?_)
    · rw [isConnective, own, Bool.true_or]
    · have read' := (scan_of_mem_splitOnP (cutsWords_isKeyword bare_and) _ _ read.1 read.2).1 h inside
      refine placed_stretch read'.1 read'.2 (fun x own => ?_) _
      have found := mem_of_mem_splitOnP g h inside x own
      rw [isConnective, found.2, (mem_of_mem_splitOnP _ g member x found.1).2]
      rfl

/-- The conditions of a clause stand in it in their order, with blanks and keywords around them. -/
def Laid (clause : List Char) (groups : List (List (List Char))) : Prop :=
  ∃ before text behind, clause = before ++ (text ++ behind) ∧ Text.Blanks before ∧ Text.Blanks behind ∧
    ∃ lead core trail, Piece.scan {} 0 text = lead ++ (core ++ trail) ∧ Loose isConnective lead ∧
      Loose isConnective trail ∧ Disjunctive core groups

/-! ## Clauses written from their conditions -/

theorem flatMap_splitOnP {α : Type} (p q : α → Bool) (xs : List α) :
    (xs.splitOnP q).flatMap (List.splitOnP p) = xs.splitOnP fun x => p x || q x := by
  induction xs with
  | nil => rfl
  | cons x xs ih =>
      rw [List.splitOnP_cons_eq_if_modifyHead, List.splitOnP_cons_eq_if_modifyHead, ← ih]
      by_cases outer : q x = true
      · rw [if_pos outer, if_pos (by simp [outer])]
        rfl
      · rw [if_neg outer]
        cases split : xs.splitOnP q with
        | nil => exact absurd split (List.splitOnP_ne_nil q xs)
        | cons g gs =>
            rw [List.modifyHead_cons, List.flatMap_cons, List.flatMap_cons,
              List.splitOnP_cons_eq_if_modifyHead]
            by_cases inner : p x = true
            · rw [if_pos inner, if_pos (by simp [inner])]
              rfl
            · rw [if_neg inner, if_neg (by simp [inner, outer])]
              cases split' : g.splitOnP p with
              | nil => exact absurd split' (List.splitOnP_ne_nil p g)
              | cons h hs => rfl

theorem flatten_cuts (ps : List Piece) :
    (cuts ps).flatten = ((ps.splitOnP isConnective).map stretch).filter fun c => !c.isEmpty := by
  have both : isConnective = fun x => x.isKeyword "AND" || x.isKeyword "OR" := rfl
  rw [cuts, List.flatten_filter_not_isEmpty, both, ← flatMap_splitOnP, List.map_flatMap,
    List.filter_flatMap, List.flatMap_def]

theorem exists_of_mem_dropLast {α β : Type} {f : α → β} {keep : β → Bool} {xs : List α} {b : β}
    (member : b ∈ ((xs.map f).filter keep).dropLast) : keep b = true ∧ ∃ a ∈ xs.dropLast, f a = b := by
  have kept := (List.mem_filter.mp (List.dropLast_subset _ member)).2
  refine ⟨kept, ?_⟩
  rcases List.eq_nil_or_concat xs with rfl | ⟨front, last, rfl⟩
  · cases member
  · rw [List.concat_eq_append, List.map_append, List.filter_append] at member
    have early : b ∈ (front.map f).filter keep := by
      by_cases own : keep (f last) = true
      · rw [List.map_singleton, List.filter_cons_of_pos own, List.filter_nil,
          List.dropLast_concat] at member
        exact member
      · rw [List.map_singleton, List.filter_cons_of_neg own, List.filter_nil,
          List.append_nil] at member
        exact List.dropLast_subset _ member
    rw [List.concat_eq_append, List.dropLast_concat]
    exact List.mem_map.mp (List.mem_filter.mp early).1

/-- A text that ends outside strings and parentheses is balanced between its blanks. -/
theorem balanced_trim {s : List Char} (outside : (Reading.after {} s).Outside)
    (level : (Reading.after {} s).depth = 0) (nonempty : Text.trim s ≠ []) : Balanced (Text.trim s) := by
  obtain ⟨lead, trail, first, last, same⟩ := Text.exists_trim s
  rw [same, ← List.append_assoc] at outside level
  have padded := Reading.outside_of_after_blanks last outside
  rw [Reading.after_append _ (lead ++ _), (Reading.after_blanks padded last).2] at level
  have passed := Reading.after_blanks (s := {}) rfl first
  have core : Reading.after {} (lead ++ Text.trim s) = Reading.after {} (Text.trim s) := by
    rw [Reading.after_append]
    exact Reading.after_of_outside (t := {}) passed.1 rfl passed.2 nonempty
  rw [core] at padded level
  exact ⟨nonempty, Text.trim_trim s, padded, level⟩

/-- Of the conditions of a settled text only the last may be open at its end. -/
theorem balanced_of_mem_cuts {s : List Char} (settled : Settled s) :
    ∀ t ∈ (cuts (Piece.scan {} 0 s)).flatten.dropLast, Balanced t := by
  intro t member
  rw [flatten_cuts] at member
  obtain ⟨kept, g, inside, rfl⟩ := exists_of_mem_dropLast member
  have read := (scan_of_mem_splitOnP cutsWords_isConnective _ s rfl settled).2 g inside
  have some : stretch g ≠ [] := by simpa using kept
  exact balanced_trim read.1 read.2 some

theorem Strung.forall_mem {β : Type} {item : List Piece → β → Prop} {joint : List Piece → Prop}
    {ps : List Piece} {bs : List β} {P : β → Prop} (strung : Strung item joint ps bs)
    (each : ∀ qs b, item qs b → P b) : ∀ b ∈ bs, P b := by
  induction strung with
  | last here => simpa using each _ _ here
  | more here _ _ ih => exact List.forall_mem_cons.mpr ⟨each _ _ here, ih⟩

theorem Strung.ne_nil {β : Type} {item : List Piece → β → Prop} {joint : List Piece → Prop}
    {ps : List Piece} {bs : List β} (strung : Strung item joint ps bs) : bs ≠ [] := by
  cases strung <;> simp

/-- Texts with single blanks around each keyword between them. -/
def spaced (keyword : String) (ts : List (List Char)) : List Char :=
  (' ' :: (keyword.toList ++ [' '])).intercalate ts

theorem joined_spaced {keyword : String} (spells : Token.Spells keyword keyword.toList)
    (ts : List (List Char)) (some : ts ≠ []) : Joined keyword ts (spaced keyword ts) := by
  induction ts with
  | nil => exact absurd rfl some
  | cons t ts ih =>
      cases ts with
      | nil =>
          have same : spaced keyword [t] = t := by simp [spaced, List.intercalate]
          rw [same]
          exact .one t
      | cons u us =>
          have same : spaced keyword (t :: u :: us) =
              t ++ ([' '] ++ (keyword.toList ++ ([' '] ++ spaced keyword (u :: us)))) := by
            simp [spaced, List.intercalate]
          have gap : Text.Gap [' '] := Text.gap_singleton (by decide)
          rw [same]
          exact .more gap spells gap (ih (by simp))

/-- A clause written from its conditions, AND between those of a group and OR between groups. -/
def written (groups : List (List (List Char))) : List Char :=
  spaced "OR" (groups.map (spaced "AND"))

theorem writes_written {groups : List (List (List Char))} (some : groups ≠ [])
    (each : ∀ g ∈ groups, g ≠ []) : Writes groups (written groups) := by
  refine ⟨groups.map (spaced "AND"), joined_spaced (by decide) _ (by simpa using some), ?_⟩
  rw [List.forall₂_map_right_iff, List.forall₂_same]
  exact fun g member => joined_spaced (by decide) g (each g member)

theorem written_singleton (t : List Char) : written [[t]] = t := by
  simp [written, spaced, List.intercalate]

theorem parseClause_trim (clause : List Char) : parseClause (Text.trim clause) = parseClause clause := by
  rw [parseClause_eq, parseClause_eq, Text.trim_trim]

/-- A clause is some conditions in some groups, and written from them it is these again. Either the
clause is blanks and keywords only and is taken for one condition, or its conditions are laid out in
it. -/
theorem parseClause_normal (clause : List Char) :
    (parseClause clause ≠ [] ∧ ∀ g ∈ parseClause clause, g ≠ []) ∧
      parseClause (written (parseClause clause)) = parseClause clause ∧
      (Loose isConnective (Piece.scan {} 0 (Text.trim clause)) ∧
          parseClause clause = [[Text.trim clause]] ∨
        Laid clause (parseClause clause)) := by
  have settled := settled_trim clause
  have parsed := parseClause_eq_cuts settled
  rw [parseClause_trim, Text.trim_trim] at parsed
  rcases placed_cuts settled with ⟨none, loose⟩ | ⟨some, lead, core, trail, runs, first, last, row⟩
  · -- nothing is left of the clause, so it stands for itself
    rw [none] at parsed
    refine ⟨by simp [parsed], ?_, .inl ⟨loose, parsed⟩⟩
    rw [parsed, written_singleton, parseClause_trim, parsed]
  · have same : parseClause clause = cuts (Piece.scan {} 0 (Text.trim clause)) := by
      rw [parsed]
      cases left : cuts (Piece.scan {} 0 (Text.trim clause)) with
      | nil => exact absurd left some
      | cons _ _ => rfl
    have filled := row.forall_mem fun _ _ conj => conj.ne_nil
    have lone := row.forall_mem fun _ _ conj => conj.forall_mem fun _ _ read => read.toLone
    obtain ⟨before, behind, blank, blank', spread⟩ := Text.exists_trim clause
    rw [same]
    exact ⟨⟨some, filled⟩,
      parseClause_of_writes (writes_written some filled) lone (balanced_of_mem_cuts settled),
      .inr ⟨before, _, behind, spread, blank, blank', lead, core, trail, runs, first, last, row⟩⟩

end FileQuery.Where
