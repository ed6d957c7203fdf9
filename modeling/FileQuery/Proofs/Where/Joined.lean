import FileQuery.Proofs.Where.Reading

/-! # Texts joined by keywords

A balanced text ends outside strings and parentheses. Where balanced texts that hold no keyword are
joined by one, in any case and with any blanks around it, cutting at the keyword gives them back
(`Joined.split`); a clause that joins conditions by AND and these by OR has just these conditions
(`parseClause_writes`). -/
set_option autoImplicit false
namespace FileQuery.Where

/-- A trimmed text that ends outside strings and at the level it begins at. -/
structure Balanced (text : List Char) : Prop where
  nonempty : text ≠ []
  trimmed : Text.trim text = text
  outside : (Reading.after {} text).Outside
  level : (Reading.after {} text).depth = 0

/-- Whether a keyword does not stand in a text, outside strings and parentheses. -/
def Free (keyword : String) (text : List Char) : Prop :=
  ∀ x ∈ Piece.scan {} 0 text, x.isKeyword keyword = false

instance (keyword : String) (text : List Char) : Decidable (Free keyword text) :=
  inferInstanceAs (Decidable (∀ x ∈ _, _))

theorem Balanced.join {a before k behind b : List Char} (left : Balanced a) (right : Balanced b)
    (first : Text.Gap before) (bare : Token.Bare k) (last : Text.Gap behind) :
    Balanced (a ++ (before ++ (k ++ (behind ++ b)))) := by
  have passed := Reading.after_unmarked left.outside (unmarked_joint first bare last)
  have whole : Reading.after {} (a ++ (before ++ (k ++ (behind ++ b)))) = Reading.after {} b := by
    have parts : before ++ (k ++ (behind ++ b)) = (before ++ (k ++ behind)) ++ b := by simp
    rw [parts, Reading.after_append, Reading.after_append]
    exact Reading.after_of_outside (t := {}) passed.1 rfl (passed.2.trans left.level) right.nonempty
  refine ⟨by simp [left.nonempty], ?_, ?_, ?_⟩
  · have between := Text.trim_between left.trimmed right.trimmed left.nonempty right.nonempty
      (before ++ (k ++ behind))
    simpa using between
  · rw [whole]
    exact right.outside
  · rw [whole]
    exact right.level

theorem isKeyword_gaps (keyword : String) (gap : List Char) :
    ∀ x ∈ gap.map Piece.gap, x.isKeyword keyword = false := by
  intro x member
  obtain ⟨c, _, rfl⟩ := List.mem_map.mp member
  rfl

theorem isKeyword_of_mem {keyword : String} {c : Char} {t : List Char} (depth : Nat)
    (member : c ∈ t) (fixed : c ∈ Text.upperOf c) (absent : c ∉ keyword.toList) :
    Piece.isKeyword keyword (.word depth t) = false := by
  cases depth with
  | succ n => rfl
  | zero =>
      rw [Piece.isKeyword, beq_eq_false_iff_ne]
      intro same
      apply absent
      rw [← same, String.toList_ofList, Text.upper]
      exact List.mem_flatMap.mpr ⟨c, member, fixed⟩

/-- No keyword stands in two texts with a word between them, if it stands in neither and the word
is another one. -/
theorem Free.join {keyword : String} {a before k behind b : List Char} (balanced : Balanced a)
    (left : Free keyword a) (right : Free keyword b) (first : Text.Gap before)
    (bare : Token.Bare k) (last : Text.Gap behind) (other : ¬ Token.Spells keyword k) :
    Free keyword (a ++ (before ++ (k ++ (behind ++ b)))) := by
  intro x member
  rw [Piece.scan_join balanced.outside balanced.level first bare last] at member
  rcases List.mem_append.mp member with h | h
  · rcases List.mem_append.mp h with h | h
    · exact left x h
    · exact isKeyword_gaps keyword before x h
  · rcases List.mem_cons.mp h with rfl | h
    · simpa [Piece.isKeyword, Token.Spells] using other
    · rcases List.mem_append.mp h with h | h
      · exact isKeyword_gaps keyword behind x h
      · exact right x h

theorem Free.split {keyword : String} {t : List Char} (free : Free keyword t)
    (trimmed : Text.trim t = t) : splitAtKeyword keyword t = [t] := by
  rw [splitAtKeyword_eq, List.splitOnP_eq_singleton free, List.map_singleton, stretch,
    Piece.text_scan, trimmed]

theorem splitAtKeyword_append {keyword : String} {a before k behind : List Char}
    (balanced : Balanced a) (free : Free keyword a) (first : Text.Gap before)
    (bare : Token.Bare k) (last : Text.Gap behind) (spells : Token.Spells keyword k)
    (r : List Char) :
    splitAtKeyword keyword (a ++ (before ++ (k ++ (behind ++ r)))) =
      a :: splitAtKeyword keyword r := by
  have cut : Piece.isKeyword keyword (.word 0 k) = true := by
    simpa [Piece.isKeyword, Token.Spells] using spells
  have uncut : ∀ x ∈ Piece.scan {} 0 a ++ before.map Piece.gap, x.isKeyword keyword = false := by
    intro x member
    rcases List.mem_append.mp member with h | h
    · exact free x h
    · exact isKeyword_gaps keyword before x h
  have here : stretch (Piece.scan {} 0 a ++ before.map Piece.gap) = a := by
    have padded := Text.trim_pad (l := []) Text.blanks_nil first.blanks a
    rw [stretch, List.flatMap_append, Piece.text_scan, flatMap_text_gaps]
    exact padded.trans balanced.trimmed
  rw [splitAtKeyword_eq, Piece.scan_join balanced.outside balanced.level first bare last,
    List.splitOnP_append_cons _ _ cut, List.splitOnP_eq_singleton uncut, List.singleton_append,
    List.map_cons, here, map_stretch_splitOnP_gaps keyword last.blanks, ← splitAtKeyword_eq]

/-! ## Many texts -/

/-- Texts with a keyword between each two, in any case and with blanks around it. -/
inductive Joined (keyword : String) : List (List Char) → List Char → Prop where
  | one (t : List Char) : Joined keyword [t] t
  | more {t before k behind s : List Char} {ts : List (List Char)} (first : Text.Gap before)
      (spells : Token.Spells keyword k) (last : Text.Gap behind) (rest : Joined keyword ts s) :
      Joined keyword (t :: ts) (t ++ (before ++ (k ++ (behind ++ s))))

namespace Joined

variable {keyword : String} {ts : List (List Char)} {s : List Char}

theorem balanced (joined : Joined keyword ts s) (bare : Token.Bare keyword.toList)
    (each : ∀ t ∈ ts, Balanced t) : Balanced s := by
  induction joined with
  | one t => exact each t (by simp)
  | more first spells last _ ih =>
      have rest := ih fun u member => each u (List.mem_cons_of_mem _ member)
      exact (each _ (by simp)).join rest first (spells.bare bare) last

theorem trimmed (joined : Joined keyword ts s) (each : ∀ t ∈ ts, t ≠ [] ∧ Text.trim t = t) :
    s ≠ [] ∧ Text.trim s = s := by
  induction joined with
  | one t => exact each t (by simp)
  | @more t before k behind s ts first spells last _ ih =>
      have here := each t (by simp)
      have rest := ih fun u member => each u (List.mem_cons_of_mem _ member)
      refine ⟨by simp [here.1], ?_⟩
      have between := Text.trim_between here.2 rest.2 here.1 rest.1 (before ++ (k ++ behind))
      simpa using between

theorem head_mem_dropLast (joined : Joined keyword ts s) (t : List Char) : t ∈ (t :: ts).dropLast := by
  cases joined <;> simp

theorem mem_dropLast_cons (joined : Joined keyword ts s) (t : List Char) {u : List Char}
    (member : u ∈ ts.dropLast) : u ∈ (t :: ts).dropLast := by
  rw [List.dropLast_cons_of_ne_nil (by rintro rfl; cases joined)]
  exact List.mem_cons_of_mem _ member

theorem free {other : String} (joined : Joined keyword ts s) (bare : Token.Bare keyword.toList)
    (differ : other ≠ keyword) (each : ∀ t ∈ ts, Free other t)
    (closed : ∀ t ∈ ts.dropLast, Balanced t) : Free other s := by
  induction joined with
  | one t => exact each t (by simp)
  | more first spells last joined ih =>
      have rest := ih (fun u member => each u (List.mem_cons_of_mem _ member))
        fun u member => closed u (joined.mem_dropLast_cons _ member)
      refine (each _ (List.mem_cons_self)).join (closed _ (joined.head_mem_dropLast _)) rest first
        (spells.bare bare) last ?_
      intro spelled
      exact differ (spelled.symm.trans spells)

theorem split (joined : Joined keyword ts s) (bare : Token.Bare keyword.toList)
    (each : ∀ t ∈ ts, Text.trim t = t ∧ Free keyword t)
    (closed : ∀ t ∈ ts.dropLast, Balanced t) : splitAtKeyword keyword s = ts := by
  induction joined with
  | one t => exact (each t (by simp)).2.split (each t (by simp)).1
  | more first spells last joined ih =>
      have rest := ih (fun u member => each u (List.mem_cons_of_mem _ member))
        fun u member => closed u (joined.mem_dropLast_cons _ member)
      have here := each _ (List.mem_cons_self)
      rw [splitAtKeyword_append (closed _ (joined.head_mem_dropLast _)) here.2 first
        (spells.bare bare) last spells, rest]

theorem ne_nil (joined : Joined keyword ts s) : ts ≠ [] := by
  cases joined <;> simp

end Joined

/-- A text that is one condition where it stands last. -/
structure Lone (text : List Char) : Prop where
  nonempty : text ≠ []
  trimmed : Text.trim text = text
  notAnd : Free "AND" text
  notOr : Free "OR" text

/-- A text that stands for itself between AND and OR. -/
structure Operand (text : List Char) : Prop extends Balanced text where
  notAnd : Free "AND" text
  notOr : Free "OR" text

theorem Operand.lone {text : List Char} (operand : Operand text) : Lone text :=
  ⟨operand.nonempty, operand.trimmed, operand.notAnd, operand.notOr⟩

theorem bare_and : Token.Bare "AND".toList := by decide

theorem bare_or : Token.Bare "OR".toList := by decide

def conditionsOf (g : List Char) : List (List Char) :=
  (splitAtKeyword "AND" g).filter fun c => !c.isEmpty

theorem conditionsOf_joined {ts : List (List Char)} {g : List Char} (joined : Joined "AND" ts g)
    (each : ∀ t ∈ ts, Lone t) (closed : ∀ t ∈ ts.dropLast, Balanced t) : conditionsOf g = ts := by
  rw [conditionsOf, joined.split bare_and (fun t member =>
    ⟨(each t member).trimmed, (each t member).notAnd⟩) closed, List.filter_eq_self]
  intro t member
  simpa using (each t member).nonempty

/-- Conjunctions of which only the very last condition may be open at its end. -/
theorem conjunctions_stand {groups : List (List (List Char))} {gs : List (List Char)}
    (conjoined : List.Forall₂ (Joined "AND") groups gs) (each : ∀ g ∈ groups, ∀ t ∈ g, Lone t)
    (closed : ∀ t ∈ groups.flatten.dropLast, Balanced t) :
    gs.map conditionsOf = groups ∧ (∀ g ∈ gs, g ≠ [] ∧ Text.trim g = g ∧ Free "OR" g) ∧
      ∀ g ∈ gs.dropLast, Balanced g := by
  induction conjoined with
  | nil => simp
  | @cons ts g groups gs joined conjoined ih =>
      have own := each ts List.mem_cons_self
      have stands (inner : ∀ t ∈ ts.dropLast, Balanced t) :
          conditionsOf g = ts ∧ g ≠ [] ∧ Text.trim g = g ∧ Free "OR" g := by
        have trimmed := joined.trimmed fun t member => ⟨(own t member).nonempty, (own t member).trimmed⟩
        exact ⟨conditionsOf_joined joined own inner, trimmed.1, trimmed.2,
          joined.free bare_and (by decide) (fun t member => (own t member).notOr) inner⟩
      cases conjoined with
      | nil =>
          rw [List.flatten_singleton] at closed
          have here := stands closed
          refine ⟨by rw [List.map_singleton, here.1], fun g' member => ?_, by simp⟩
          rw [List.mem_singleton.mp member]
          exact here.2
      | @cons us _ groups _ joined' _ =>
          -- a condition follows, so all of these are closed
          have more : (us :: groups).flatten ≠ [] := by
            have filled := joined'.ne_nil
            simp [filled]
          rw [List.flatten_cons, List.dropLast_append_of_ne_nil more] at closed
          have all : ∀ t ∈ ts, Balanced t := fun t member =>
            closed t (List.mem_append_left _ member)
          have here := stands fun t member => all t (List.dropLast_subset _ member)
          obtain ⟨same, stand, balanced⟩ := ih (fun g member => each g (List.mem_cons_of_mem _ member))
            fun t member => closed t (List.mem_append_right _ member)
          rw [List.map_cons, here.1, same, List.dropLast_cons_of_ne_nil (by simp)]
          exact ⟨rfl, List.forall_mem_cons.mpr ⟨here.2, stand⟩,
            List.forall_mem_cons.mpr ⟨joined.balanced bare_and all, balanced⟩⟩

theorem group_ne_nil {groups : List (List (List Char))} {gs : List (List Char)}
    (conjoined : List.Forall₂ (Joined "AND") groups gs) : ∀ g ∈ groups, g ≠ [] := by
  induction conjoined with
  | nil => simp
  | cons joined _ ih =>
      intro g member
      rcases List.mem_cons.mp member with rfl | h
      · exact joined.ne_nil
      · exact ih g h

/-- Whether a text joins conditions by AND, and these by OR. -/
def Writes (groups : List (List (List Char))) (s : List Char) : Prop :=
  ∃ gs, Joined "OR" gs s ∧ List.Forall₂ (Joined "AND") groups gs

theorem parseClause_eq (clause : List Char) :
    parseClause clause =
      match ((splitAtKeyword "OR" (Text.trim clause)).map conditionsOf).filter
        (fun g => !g.isEmpty) with
      | [] => [[Text.trim clause]]
      | gs => gs := rfl

/-- A clause that joins conditions by AND, and these by OR, has just these conditions, even if the last
of them is open at its end. -/
theorem parseClause_of_writes {groups : List (List (List Char))} {s : List Char}
    (writes : Writes groups s) (each : ∀ g ∈ groups, ∀ t ∈ g, Lone t)
    (closed : ∀ t ∈ groups.flatten.dropLast, Balanced t) : parseClause s = groups := by
  obtain ⟨gs, joined, conjoined⟩ := writes
  obtain ⟨same, stand, balanced⟩ := conjunctions_stand conjoined each closed
  have trimmed := (joined.trimmed fun g member => ⟨(stand g member).1, (stand g member).2.1⟩).2
  have cut : (splitAtKeyword "OR" s).map conditionsOf = groups := by
    rw [joined.split bare_or (fun g member => (stand g member).2) balanced, same]
  have kept : groups.filter (fun g => !g.isEmpty) = groups := by
    rw [List.filter_eq_self]
    intro g member
    simpa using group_ne_nil conjoined g member
  rw [parseClause_eq, trimmed, cut, kept]
  cases conjoined with
  | nil => exact absurd rfl joined.ne_nil
  | cons _ _ => rfl

/-- A clause that joins operands by AND, and these by OR, has just these conditions. -/
theorem parseClause_writes {groups : List (List (List Char))} {s : List Char}
    (writes : Writes groups s) (each : ∀ g ∈ groups, ∀ t ∈ g, Operand t) :
    parseClause s = groups := by
  refine parseClause_of_writes writes (fun g member t inside => (each g member t inside).lone) ?_
  intro t member
  obtain ⟨g, listed, inside⟩ := List.mem_flatten.mp (List.dropLast_subset _ member)
  exact (each g listed t inside).toBalanced

end FileQuery.Where
