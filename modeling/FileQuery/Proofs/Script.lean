import FileQuery.Proofs.Text.Blank
import FileQuery.Proofs.Text.Lines
import FileQuery.Script

/-! Scripts and the lines they are joined from. A script is cut at every character that breaks lines,
not only at line feeds: the statements of its lines are those of the script just when no line is cut
inside, or else is a note that is cut into notes. -/
set_option autoImplicit false
namespace FileQuery

open Text (isBreak isBlank trim Blanks splitLines consLine)

/-- The statements in a text that is cut at its breaks. -/
def stated (s : List Char) : List (List Char) :=
  ((s.splitOnP isBreak).map trim).filter fun l => !isNote l

/-- The statement that a line is when it is taken as one, if it is no note. -/
def ownStatement (l : List Char) : List (List Char) := if isNote (trim l) then [] else [trim l]

/-- Whether a line is not cut but at its ends, or is a note that is cut into notes. -/
def Whole (l : List Char) : Prop :=
  (∀ c ∈ trim l, isBreak c = false) ∨
    (isNote (trim l) = true ∧ ∀ p ∈ l.splitOnP isBreak, isNote (trim p) = true)

instance (l : List Char) : Decidable (Whole l) :=
  decidable_of_iff
    (((trim l).all fun c => isBreak c == false) = true ∨
      (isNote (trim l) = true ∧ ((l.splitOnP isBreak).all fun p => isNote (trim p)) = true))
    (by simp only [List.all_eq_true, beq_iff_eq, Whole])

/-! What a text states. -/

theorem blank_of_break {c : Char} (breaks : isBreak c = true) : isBlank c = true := by
  have all : ['\n', '\r', '\x0b', '\x0c', '\x1c', '\x1d', '\x1e', '\u0085', '\u2028', '\u2029'].all
    isBlank = true := by decide
  exact List.all_eq_true.mp all c (List.contains_iff_mem.mp breaks)

theorem splitOnP_eq_splitLines {s : List Char} (noReturn : '\r' ∉ s) :
    s.splitOnP isBreak = splitLines s ∨ s.splitOnP isBreak = splitLines s ++ [[]] := by
  induction s with
  | nil => exact .inr rfl
  | cons c r ih =>
      rw [List.mem_cons, not_or] at noReturn
      rw [Text.splitLines_cons (Ne.symm noReturn.1), List.splitOnP_cons_eq_if_modifyHead]
      cases isBreak c with
      | true =>
          rw [if_pos rfl, if_pos rfl]
          rcases ih noReturn.2 with same | same
          · exact .inl (by rw [same])
          · exact .inr (by rw [same, List.cons_append])
      | false =>
          rw [if_neg Bool.false_ne_true, if_neg Bool.false_ne_true]
          rcases ih noReturn.2 with same | same
          · obtain ⟨p, ps, pieces⟩ := List.exists_cons_of_ne_nil (List.splitOnP_ne_nil isBreak r)
            rw [same] at pieces
            exact .inl (by rw [same, pieces, List.modifyHead_cons, consLine])
          · rw [same]
            cases splitLines r with
            | nil => exact .inl rfl
            | cons p ps => exact .inr rfl

theorem stated_eq {s : List Char} (noReturn : '\r' ∉ s) :
    ((splitLines s).map trim).filter (fun l => !isNote l) = stated s := by
  have none : ([[]].map trim).filter (fun l => !isNote l) = [] := rfl
  rw [stated]
  rcases splitOnP_eq_splitLines noReturn with same | same
  · rw [same]
  · rw [same, List.map_append, List.filter_append, none, List.append_nil]

theorem stated_append_break {c : Char} (breaks : isBreak c = true) (x y : List Char) :
    stated (x ++ c :: y) = stated x ++ stated y := by
  rw [stated, List.splitOnP_append_cons x y breaks, List.map_append, List.filter_append]
  rfl

theorem stated_cons_blank {c : Char} (blank : isBlank c = true) (s : List Char) :
    stated (c :: s) = stated s := by
  cases breaks : isBreak c with
  | true => exact stated_append_break breaks [] s
  | false =>
      rw [stated, List.splitOnP_cons_eq_if_modifyHead, if_neg (by simp [breaks]), stated]
      obtain ⟨p, ps, same⟩ := List.exists_cons_of_ne_nil (List.splitOnP_ne_nil isBreak s)
      rw [same, List.modifyHead_cons, List.map_cons, List.map_cons, Text.trim_cons_blank blank]

theorem stated_pad {lead : List Char} (blanks : Blanks lead) (s : List Char) :
    stated (lead ++ s) = stated s := by
  induction lead with
  | nil => rfl
  | cons c lead ih =>
      obtain ⟨blank, rest⟩ := Text.blanks_cons.mp blanks
      rw [List.cons_append, stated_cons_blank blank, ih rest]

theorem stated_of_blanks {s : List Char} (blanks : Blanks s) : stated s = [] := by
  have padded := stated_pad blanks []
  rwa [List.append_nil] at padded

theorem stated_of_unbroken {s : List Char} (unbroken : ∀ c ∈ s, isBreak c = false) :
    stated s = ownStatement s := by
  rw [stated, List.splitOnP_eq_singleton unbroken, ownStatement]
  cases note : isNote (trim s) <;> simp [note]

theorem stated_append_blanks {trail : List Char} (blanks : Blanks trail) :
    ∀ {s : List Char}, (∀ c ∈ s, isBreak c = false) → stated (s ++ trail) = ownStatement s := by
  induction trail with
  | nil =>
      intro s unbroken
      rw [List.append_nil, stated_of_unbroken unbroken]
  | cons c trail ih =>
      intro s unbroken
      obtain ⟨blank, rest⟩ := Text.blanks_cons.mp blanks
      cases breaks : isBreak c with
      | true =>
          rw [stated_append_break breaks, stated_of_unbroken unbroken, stated_of_blanks rest,
            List.append_nil]
      | false =>
          -- a blank that is no break belongs to the text before it, which is trimmed anyway
          have same : ownStatement (s ++ [c]) = ownStatement s := by
            have padded := Text.trim_pad Text.blanks_nil (Text.gap_singleton blank).blanks s
            rw [List.nil_append] at padded
            rw [ownStatement, ownStatement, padded]
          rw [← same, ← ih rest, List.append_assoc, List.singleton_append]
          intro d member
          rcases List.mem_append.mp member with before | last
          · exact unbroken d before
          · rwa [List.mem_singleton.mp last]

theorem stated_of_trimmed {l : List Char} (unbroken : ∀ c ∈ trim l, isBreak c = false) :
    stated l = ownStatement l := by
  obtain ⟨lead, trail, left, right, same⟩ := Text.exists_trim l
  have own : ownStatement (trim l) = ownStatement l := by
    rw [ownStatement, ownStatement, Text.trim_trim]
  conv_lhs => rw [same]
  rw [stated_pad left, stated_append_blanks right unbroken, own]

/-! What a line states when it is cut. -/

theorem unbroken_of_mem_splitOnP {s : List Char} : ∀ p ∈ s.splitOnP isBreak, ∀ c ∈ p,
    isBreak c = false := by
  induction s with
  | nil => simp [List.splitOnP_nil]
  | cons d r ih =>
      intro p member c inside
      rw [List.splitOnP_cons_eq_if_modifyHead] at member
      split at member
      · rcases List.mem_cons.mp member with rfl | later
        · cases inside
        · exact ih p later c inside
      · next whole =>
          obtain ⟨q, qs, pieces⟩ := List.exists_cons_of_ne_nil (List.splitOnP_ne_nil isBreak r)
          rw [pieces] at ih
          rw [pieces, List.modifyHead_cons] at member
          rcases List.mem_cons.mp member with rfl | later
          · rcases List.mem_cons.mp inside with rfl | behind
            · simpa using whole
            · exact ih q List.mem_cons_self c behind
          · exact ih p (List.mem_cons_of_mem q later) c inside

theorem unbroken_of_mem_stated {s t : List Char} (member : t ∈ stated s) :
    ∀ c ∈ t, isBreak c = false := by
  obtain ⟨p, piece, rfl⟩ := List.mem_map.mp (List.mem_filter.mp member).1
  intro c inside
  obtain ⟨lead, trail, _, _, same⟩ := Text.exists_trim p
  refine unbroken_of_mem_splitOnP p piece c ?_
  rw [same]
  simp [inside]

theorem stated_eq_nil_iff {s : List Char} :
    stated s = [] ↔ ∀ p ∈ s.splitOnP isBreak, isNote (trim p) = true := by
  simp [stated, List.filter_eq_nil_iff]

/-- Whether a line is a note shows at its first two characters that are not trimmed. -/
theorem isNote_trim_cons {c : Char} (other : isBlank c = false) (r : List Char) :
    isNote (trim (c :: r)) = ['/', '/'].isPrefixOf (c :: r) := by
  have start : Text.trimStart (c :: r) = c :: r :=
    Text.trimStart_eq_self_iff.mpr (by simpa using other)
  obtain ⟨trail, blanks, same⟩ := Text.exists_trimEnd (c :: r)
  rw [trim, start]
  generalize Text.trimEnd (c :: r) = t at same
  rw [same]
  cases t with
  | nil =>
      have blank := blanks c (by rw [← List.nil_append trail, ← same]; exact List.mem_cons_self)
      rw [other] at blank
      cases blank
  | cons a t =>
      cases t with
      | cons b t => simp [isNote, List.isPrefixOf]
      | nil =>
          cases trail with
          | nil => rfl
          | cons d trail =>
              have noSlash : ('/' == d) = false := by
                rw [beq_eq_false_iff_ne]
                rintro rfl
                exact absurd (blanks '/' List.mem_cons_self) (by decide)
              simp [isNote, List.isPrefixOf, noSlash]

theorem exists_unbroken (s : List Char) : ∃ p rest, s = p ++ rest ∧ (∀ c ∈ p, isBreak c = false) ∧
    (rest = [] ∨ ∃ b y, rest = b :: y ∧ isBreak b = true) := by
  refine ⟨s.takeWhile fun c => !isBreak c, s.dropWhile fun c => !isBreak c,
    List.takeWhile_append_dropWhile.symm, fun c member => ?_, ?_⟩
  · simpa using List.mem_takeWhile_imp member
  · have head := List.head?_dropWhile_not (fun c => !isBreak c) s
    cases behind : s.dropWhile fun c => !isBreak c with
    | nil => exact .inl rfl
    | cons b y =>
        rw [behind] at head
        exact .inr ⟨b, y, rfl, by simpa using head⟩

/-- What stands before the first break begins like the line, so it is no note either. -/
theorem stated_cons_ne_nil {c : Char} (other : isBlank c = false) {r : List Char}
    (statement : isNote (trim (c :: r)) = false) : stated (c :: r) ≠ [] := by
  have inside : isBreak c = false := by
    cases breaks : isBreak c with
    | false => rfl
    | true =>
        rw [blank_of_break breaks] at other
        cases other
  obtain ⟨p, rest, rfl, unbroken, next⟩ := exists_unbroken r
  have own : stated (c :: p) ≠ [] := by
    have statement' : isNote (trim (c :: p)) = false := by
      rw [isNote_trim_cons other, Bool.eq_false_iff, ne_eq, List.isPrefixOf_iff_prefix] at statement ⊢
      exact fun slashes => statement (slashes.trans (List.prefix_append (c :: p) rest))
    rw [stated_of_unbroken (List.forall_mem_cons.mpr ⟨inside, unbroken⟩), ownStatement, statement']
    simp
  rcases next with rfl | ⟨b, y, rfl, breaks⟩
  · rwa [List.append_nil]
  · rw [← List.cons_append, stated_append_break breaks]
    simp [own]

theorem stated_ne_nil {s : List Char} (statement : isNote (trim s) = false) : stated s ≠ [] := by
  induction s with
  | nil => cases statement
  | cons c r ih =>
      cases blank : isBlank c with
      | true =>
          rw [stated_cons_blank blank]
          exact ih (by rwa [Text.trim_cons_blank blank] at statement)
      | false => exact stated_cons_ne_nil blank statement

theorem stated_eq_ownStatement_iff {l : List Char} : stated l = ownStatement l ↔ Whole l := by
  cases note : isNote (trim l) with
  | true =>
      rw [ownStatement, if_pos note, Whole, note]
      constructor
      · exact fun none => .inr ⟨rfl, stated_eq_nil_iff.mp none⟩
      · rintro (unbroken | ⟨_, notes⟩)
        · rw [stated_of_trimmed unbroken, ownStatement, if_pos note]
        · exact stated_eq_nil_iff.mpr notes
  | false =>
      rw [Whole, note]
      constructor
      · intro same
        rw [ownStatement, note] at same
        refine .inl (unbroken_of_mem_stated (s := l) ?_)
        rw [same]
        exact List.mem_singleton_self _
      · rintro (unbroken | ⟨absurd, _⟩)
        · exact stated_of_trimmed unbroken
        · cases absurd

theorem length_ownStatement_le (l : List Char) : (ownStatement l).length ≤ (stated l).length := by
  rw [ownStatement]
  split
  · exact Nat.zero_le _
  · next statement =>
      exact List.length_pos_iff.mpr (stated_ne_nil (by simpa using statement))

/-- Parts that are never shorter are the same as a whole just when each is the same. -/
theorem flatMap_eq_iff {α β : Type} {f g : α → List β} {xs : List α}
    (shorter : ∀ x, (g x).length ≤ (f x).length) :
    xs.flatMap f = xs.flatMap g ↔ ∀ x ∈ xs, f x = g x := by
  have longer (ys : List α) : (ys.flatMap g).length ≤ (ys.flatMap f).length := by
    induction ys with
    | nil => exact Nat.le_refl _
    | cons y ys ih =>
        have first := shorter y
        simp only [List.flatMap_cons, List.length_append]
        omega
  induction xs with
  | nil => simp
  | cons x xs ih =>
      rw [List.forall_mem_cons, List.flatMap_cons, List.flatMap_cons]
      refine Iff.trans ?_ (and_congr_right' ih)
      constructor
      · intro same
        have total := congrArg List.length same
        have first := shorter x
        have rest := longer xs
        rw [List.length_append, List.length_append] at total
        exact List.append_inj same (by omega)
      · rintro ⟨first, rest⟩
        rw [first, rest]

/-! Scripts. -/

/-- The statements of lines that are taken one by one. -/
def statementsOf (lines : List String) : List String :=
  (lines.map (Text.mapString trim)).filter fun l => !isNote l.toList

def scriptOf (lines : List String) : String := String.intercalate "\n" lines

theorem statementsOf_eq (lines : List String) :
    statementsOf lines = (lines.flatMap fun l => ownStatement l.toList).map String.ofList := by
  induction lines with
  | nil => rfl
  | cons l rest ih =>
      rw [statementsOf, List.map_cons, List.filter_cons, List.flatMap_cons, List.map_append, ← ih,
        ownStatement, Text.mapString, String.toList_ofList]
      cases isNote (trim l.toList) <;> rfl

theorem scriptOf_cons_cons (l next : String) (rest : List String) :
    (scriptOf (l :: next :: rest)).toList = l.toList ++ '\n' :: (scriptOf (next :: rest)).toList := by
  rw [scriptOf, String.intercalate_cons_cons, String.toList_append, String.toList_append,
    List.append_assoc]
  rfl

theorem stated_scriptOf (lines : List String) :
    stated (scriptOf lines).toList = lines.flatMap fun l => stated l.toList := by
  induction lines with
  | nil => rfl
  | cons l rest ih =>
      cases rest with
      | nil => simp [scriptOf]
      | cons next rest =>
          rw [scriptOf_cons_cons, stated_append_break (by decide), ih]
          rfl

theorem return_not_mem_scriptOf {lines : List String} (noReturn : ∀ l ∈ lines, '\r' ∉ l.toList) :
    '\r' ∉ (scriptOf lines).toList := by
  induction lines with
  | nil => simp [scriptOf]
  | cons l rest ih =>
      cases rest with
      | nil => simpa [scriptOf] using noReturn
      | cons next rest =>
          have behind := ih fun k member => noReturn k (List.mem_cons_of_mem l member)
          rw [scriptOf_cons_cons]
          simp [noReturn l List.mem_cons_self, behind]

/-- A script has the statements of its lines just when none of them is cut but at its ends. -/
theorem scriptLines_scriptOf_iff {lines : List String} (noReturn : ∀ l ∈ lines, '\r' ∉ l.toList) :
    scriptLines (scriptOf lines) = statementsOf lines ↔ ∀ l ∈ lines, Whole l.toList := by
  have injective : Function.Injective (List.map String.ofList) :=
    List.map_injective_iff.mpr fun a b same => by
      rw [← String.toList_ofList (l := a), same, String.toList_ofList]
  rw [scriptLines, stated_eq (return_not_mem_scriptOf noReturn), stated_scriptOf, statementsOf_eq,
    injective.eq_iff]
  refine (flatMap_eq_iff fun l : String => length_ownStatement_le l.toList).trans ?_
  exact forall₂_congr fun l _ => stated_eq_ownStatement_iff

end FileQuery
