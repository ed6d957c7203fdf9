import FileQuery.Proofs.Text.Lower
import FileQuery.Proofs.Where.Clause

/-! # Conditions as they are written

An attribute, an operator and a literal between double quotes are the condition they spell whatever
the literal is, with any blanks between them and with none beside a comparison sign (`parse_typed`). A
clause that is such a text has it as its one condition if no double quote stands in the literal
(`parseClause_typed`), and then answers what the test of the condition answers, or reports why there is
none (`answer_typed`). -/
set_option autoImplicit false
namespace FileQuery.Where

/-! ## Words -/

/-- A character that begins a word and is in no word that is a keyword. -/
structure Marks (keyword : String) (c : Char) : Prop where
  shown : Text.isBlank c = false
  other : c ≠ ')'
  fixed : c ∈ Text.upperOf c
  absent : c ∉ keyword.toList

instance (keyword : String) (c : Char) : Decidable (Marks keyword c) :=
  decidable_of_iff
    (Text.isBlank c = false ∧ c ≠ ')' ∧ c ∈ Text.upperOf c ∧ c ∉ keyword.toList)
    ⟨fun h => ⟨h.1, h.2.1, h.2.2.1, h.2.2.2⟩, fun h => ⟨h.shown, h.other, h.fixed, h.absent⟩⟩

theorem marks_quote {keyword : String} (connective : keyword = "AND" ∨ keyword = "OR") :
    Marks keyword '"' := by
  rcases connective with rfl | rfl <;> decide

namespace Attribute

theorem bare_label (a : Attribute) : Token.Bare a.label.toList := by
  cases a <;> decide

theorem free_label (a : Attribute) {keyword : String}
    (connective : keyword = "AND" ∨ keyword = "OR") : Free keyword a.label.toList := by
  rcases connective with rfl | rfl <;> cases a <;> decide

theorem isLabelChar_of_mem_label (a : Attribute) :
    ∀ c ∈ a.label.toList, Condition.isLabelChar c = true :=
  List.all_eq_true.mp (by cases a <;> decide)

theorem lower_label (a : Attribute) : Text.lower a.label.toList = a.label.toList := by
  cases a <;> decide

theorem ofLabel?_label (a : Attribute) : ofLabel? a.label = some a := by
  cases a <;> decide

theorem eq_of_label {a b : Attribute} (same : a.label = b.label) : a = b := by
  have found := ofLabel?_label a
  rw [same, ofLabel?_label b] at found
  exact (Option.some.inj found).symm

end Attribute

/-- The sign of a comparison begins neither a label nor LIKE, and with nothing before it a word. -/
theorem exists_sign_cons {c : Comparison} {sign : List Char}
    (listed : (sign, c) ∈ Condition.signs) : ∃ d t, sign = d :: t ∧ Text.isBlank d = false ∧
      Condition.isLabelChar d = false ∧ Text.alike 'l' d = false ∧ Marks "AND" d ∧ Marks "OR" d := by
  simp only [Condition.signs, List.mem_cons, Prod.mk.injEq, List.not_mem_nil, or_false] at listed
  rcases listed with ⟨rfl, _⟩ | ⟨rfl, _⟩ | ⟨rfl, _⟩ | ⟨rfl, _⟩ | ⟨rfl, _⟩ | ⟨rfl, _⟩ | ⟨rfl, _⟩ <;>
    exact ⟨_, _, rfl, by decide, by decide, by decide, by decide, by decide⟩

namespace Operator

/-- Whether a sign of an operator may stand with these texts before and behind it: blanks, which only
the sign of a comparison can do without. -/
inductive Stands : Operator → List Char → List Char → List Char → Prop
  | like {before behind : List Char} (first : Text.Gap before) (last : Text.Gap behind) :
      Stands .like before ['L', 'I', 'K', 'E'] behind
  | compare {c : Comparison} {before sign behind : List Char} (first : Text.Blanks before)
      (listed : (sign, c) ∈ Condition.signs) (last : Text.Blanks behind) :
      Stands (.compare c) before sign behind

namespace Stands
variable {op : Operator} {before sign behind : List Char}

theorem blanks (stands : op.Stands before sign behind) : Text.Blanks before ∧ Text.Blanks behind := by
  cases stands with
  | like first last => exact ⟨first.blanks, last.blanks⟩
  | compare first _ last => exact ⟨first, last⟩

theorem bare (stands : op.Stands before sign behind) : Token.Bare sign := by
  have each : ∀ s ∈ Condition.signs, Token.Bare s.1 := by decide
  cases stands with
  | like => decide
  | compare _ listed _ => exact each _ listed

variable {keyword : String} (connective : keyword = "AND" ∨ keyword = "OR")
include connective

theorem free (stands : op.Stands before sign behind) : Free keyword sign := by
  have each : ∀ s ∈ Condition.signs, Free keyword s.1 := by
    rcases connective with rfl | rfl <;> decide
  cases stands with
  | like => rcases connective with rfl | rfl <;> decide
  | compare _ listed _ => exact each _ listed

theorem marks (stands : op.Stands before sign behind) :
    ∃ c rest, sign = c :: rest ∧ Marks keyword c := by
  cases stands with
  | like => exact ⟨_, _, rfl, by rcases connective with rfl | rfl <;> decide⟩
  | compare _ listed _ =>
      obtain ⟨c, rest, same, _, _, _, conj, disj⟩ := exists_sign_cons listed
      refine ⟨c, rest, same, ?_⟩
      rcases connective with rfl | rfl
      · exact conj
      · exact disj

end Stands

theorem stands_sign (op : Operator) : op.Stands [' '] op.sign.toList [' '] := by
  rcases op with _ | c
  · exact .like gap_space gap_space
  · exact .compare gap_space.blanks (by cases c <;> decide) gap_space.blanks

end Operator

/-! ## Texts -/

/-- An attribute, the sign of an operator with what stands on either side of it, and a literal between
double quotes. -/
def typed (a : Attribute) (before sign behind literal : List Char) : List Char :=
  a.label.toList ++ (before ++ (sign ++ (behind ++ '"' :: (literal ++ ['"']))))

/-- An attribute, an operator and a literal between double quotes, as a condition writes them. -/
def spelled (a : Attribute) (op : Operator) (literal : List Char) : List Char :=
  a.label.toList ++ ([' '] ++ (op.sign.toList ++ ([' '] ++ '"' :: (literal ++ ['"']))))

theorem spelled_eq_typed (a : Attribute) (op : Operator) (literal : List Char) :
    spelled a op literal = typed a [' '] op.sign.toList [' '] literal := rfl

theorem scan_unquoted {d : Char} {q : Quoting} (inside : q.quote = some d) (depth : Nat)
    {body : List Char} (free : d ∉ body) :
    Piece.scan q depth (body ++ [d]) = [.word depth (body ++ [d])] := by
  induction body generalizing q with
  | nil =>
      -- a backslash before the last quote keeps the string open, but the text ends there
      simp [Piece.scan, Quoting.inside, inside, Piece.prepend]
  | cons c r ih =>
      have other : c ≠ d := fun same => free (by simp [same])
      have step : (q.next c).quote = some d := by simp [Quoting.next, inside, other]
      have rest := ih step fun member => free (List.mem_cons_of_mem _ member)
      rw [List.cons_append, Piece.scan, if_pos (by simp [Quoting.inside, inside]), rest]
      rfl

theorem scan_string {literal : List Char} (unquoted : '"' ∉ literal) :
    Piece.scan {} 0 ('"' :: (literal ++ ['"'])) = [.word 0 ('"' :: (literal ++ ['"']))] := by
  have rest := scan_unquoted (q := Quoting.next {} '"') rfl 0 unquoted
  rw [Piece.scan, if_neg (by decide), if_neg (by decide)]
  simp only [Char.reduceEq, if_false, depthAfter, rest]
  rfl

/-- A character outside strings that is shown and closes no parenthesis begins a word. -/
theorem exists_scan_cons {c : Char} (shown : Text.isBlank c = false) (other : c ≠ ')')
    (r : List Char) : ∃ t ps, Piece.scan {} 0 (c :: r) = .word 0 (c :: t) :: ps := by
  have begins (ps : List Piece) : ∃ t qs, Piece.prepend 0 c ps = .word 0 (c :: t) :: qs := by
    rcases ps with _ | ⟨_ | _, ps⟩
    · exact ⟨[], [], rfl⟩
    · exact ⟨_, ps, rfl⟩
    · exact ⟨[], _, rfl⟩
  rw [Piece.scan, if_neg (by decide), if_neg (by simp [shown])]
  simp only [if_neg other]
  exact begins _

/-- No keyword stands in a word and a text behind it, with blanks between them or with none, if it
stands in neither and is not made of both. -/
theorem Free.beside {keyword : String} {w gap r : List Char} {c : Char} (own : Free keyword w)
    (rest : Free keyword (c :: r)) (bare : Token.Bare w) (blanks : Text.Blanks gap)
    (marks : Marks keyword c) : Free keyword (w ++ (gap ++ c :: r)) := by
  intro x member
  cases gap with
  | nil =>
      obtain ⟨t, ps, begins⟩ := exists_scan_cons marks.shown marks.other r
      rw [List.nil_append, Piece.scan_glued bare.plain begins rfl] at member
      rcases List.mem_cons.mp member with rfl | later
      · exact isKeyword_of_mem 0 (by simp) marks.fixed marks.absent
      · exact rest x (begins ▸ List.mem_cons_of_mem _ later)
  | cons b gap =>
      rw [Piece.scan_word_append rfl 0 bare ⟨by simp, blanks⟩] at member
      rcases List.mem_cons.mp member with rfl | later
      · refine own _ ?_
        rw [Piece.scan_word rfl 0 bare]
        exact List.mem_singleton.mpr rfl
      · rcases List.mem_append.mp later with between | behind
        · exact isKeyword_gaps keyword _ x between
        · exact rest x behind

theorem trim_typed (a : Attribute) (before sign behind literal : List Char) :
    Text.trim (typed a before sign behind literal) = typed a before sign behind literal := by
  rw [Text.trim_eq_self_iff]
  constructor
  · intro c first
    rw [typed, List.head?_append_of_ne_nil _ a.bare_label.nonempty] at first
    have word := a.bare_label.plain c (List.mem_of_mem_head? first)
    exact (Token.isWordChar_iff.mp word).1
  · intro c last
    have whole : typed a before sign behind literal =
        (a.label.toList ++ before ++ sign ++ behind ++ '"' :: literal) ++ ['"'] := by
      simp [typed]
    rw [whole, List.getLast?_concat] at last
    obtain rfl := Option.some.inj last
    decide

theorem isWrapped_typed (a : Attribute) (before sign behind literal : List Char) :
    isWrapped (typed a before sign behind literal) = false := by
  cases a <;> rfl

section Clause
variable (a : Attribute) {op : Operator} {before sign behind literal : List Char}
  (stands : op.Stands before sign behind) (unquoted : '"' ∉ literal)
include stands unquoted

theorem free_typed {keyword : String} (connective : keyword = "AND" ∨ keyword = "OR") :
    Free keyword (typed a before sign behind literal) := by
  have quote := marks_quote connective
  have string : Free keyword ('"' :: (literal ++ ['"'])) := by
    intro x member
    rw [scan_string unquoted] at member
    rw [List.mem_singleton.mp member]
    exact isKeyword_of_mem 0 (by simp) quote.fixed quote.absent
  have own := (stands.free connective).beside string stands.bare stands.blanks.2 quote
  obtain ⟨c, rest, rfl, first⟩ := stands.marks connective
  exact (a.free_label connective).beside own a.bare_label stands.blanks.1 first

/-- Whatever else stands between the quotes, the text is a clause of one condition. -/
theorem parseClause_typed :
    parseClause (typed a before sign behind literal) = [[typed a before sign behind literal]] := by
  have trimmed := trim_typed a before sign behind literal
  have notAnd := (free_typed a stands unquoted (.inl rfl)).split trimmed
  have notOr := (free_typed a stands unquoted (.inr rfl)).split trimmed
  have nonempty : (typed a before sign behind literal).isEmpty = false := by simp [typed]
  rw [parseClause_eq, trimmed, notOr]
  simp [conditionsOf, notAnd, nonempty]

end Clause

/-! ## Conditions -/

theorem isLabelChar_of_isBlank {c : Char} (blank : Text.isBlank c = true) :
    Condition.isLabelChar c = false := by
  have each : ∀ n ∈ Text.blankCodes, Condition.isLabelChar (Char.ofNat n) = false := by
    decide
  simpa using each _ (Text.toNat_mem_blankCodes blank)

theorem likeOperand?_like {before behind : List Char} (first : Text.Gap before)
    (last : Text.Gap behind) (r : List Char) :
    Condition.likeOperand? (before ++ (['L', 'I', 'K', 'E'] ++ (behind ++ '"' :: r))) =
      some ('"' :: r) := by
  have start (s : List Char) : Text.trimStart (before ++ 'L' :: s) = 'L' :: s :=
    Text.trimStart_pad first.blanks _
  have operand : Text.trimStart (behind ++ '"' :: r) = '"' :: r := Text.trimStart_pad last.blanks _
  have word (s : List Char) :
      Condition.dropWord? "like".toList ('L' :: 'I' :: 'K' :: 'E' :: s) = some s := rfl
  obtain ⟨b, before, rfl⟩ := List.exists_cons_of_ne_nil first.nonempty
  obtain ⟨d, behind, rfl⟩ := List.exists_cons_of_ne_nil last.nonempty
  have blank := (Text.blanks_cons.mp first.blanks).1
  have blank' := (Text.blanks_cons.mp last.blanks).1
  simp only [List.cons_append, List.nil_append] at start operand ⊢
  simp only [Condition.likeOperand?, blank, if_true, start, word, bind, Option.bind, blank', operand]

section Sign
variable {c : Comparison} {sign : List Char} (listed : (sign, c) ∈ Condition.signs)
include listed

theorem trimStart_sign {before : List Char} (blanks : Text.Blanks before) (r : List Char) :
    Text.trimStart (before ++ (sign ++ r)) = sign ++ r := by
  obtain ⟨d, t, rfl, shown, _⟩ := exists_sign_cons listed
  rw [Text.trimStart_pad blanks, List.cons_append, Text.trimStart, List.dropWhile_cons, shown]
  rfl

theorem likeOperand?_sign {before : List Char} (blanks : Text.Blanks before) (r : List Char) :
    Condition.likeOperand? (before ++ (sign ++ r)) = none := by
  have start := trimStart_sign listed blanks r
  obtain ⟨d, t, rfl, shown, _, unlike, _⟩ := exists_sign_cons listed
  have word : Condition.dropWord? "like".toList (d :: (t ++ r)) = none :=
    if_neg (Bool.eq_false_iff.mp unlike)
  cases before with
  | nil => simp only [List.nil_append, List.cons_append, Condition.likeOperand?, shown,
      Bool.false_eq_true, if_false]
  | cons b before =>
      have blank := (Text.blanks_cons.mp blanks).1
      simp only [List.cons_append] at start ⊢
      simp only [Condition.likeOperand?, blank, if_true, start, word, bind, Option.bind]

/-- With no equality sign behind it, the sign of a comparison is not a part of another one. -/
theorem comparison?_sign {d : Char} (other : d ≠ '=') (r : List Char) :
    Condition.comparison? (sign ++ d :: r) = some (c, d :: r) := by
  simp only [Condition.signs, List.mem_cons, Prod.mk.injEq, List.not_mem_nil, or_false] at listed
  rcases listed with ⟨rfl, rfl⟩ | ⟨rfl, rfl⟩ | ⟨rfl, rfl⟩ | ⟨rfl, rfl⟩ | ⟨rfl, rfl⟩ | ⟨rfl, rfl⟩ |
    ⟨rfl, rfl⟩ <;>
    simp [Condition.comparison?, Condition.signs, other.symm]

end Sign

theorem cut?_label (a : Attribute) {rest : List Char}
    (stop : ∀ c ∈ rest.head?, Condition.isLabelChar c = false) :
    Condition.cut? (a.label.toList ++ rest) =
      match Condition.likeOperand? rest with
      | some operand => some (a.label.toList, .like, operand)
      | none => (Condition.comparison? (Text.trimStart rest)).map fun (c, operand) =>
          (a.label.toList, .compare c, Text.trimStart operand) := by
  have nonempty : a.label.toList.isEmpty = false := by simpa using a.bare_label.nonempty
  have whole : rest.takeWhile Condition.isLabelChar = [] ∧
      rest.dropWhile Condition.isLabelChar = rest := by
    cases rest with
    | nil => exact ⟨rfl, rfl⟩
    | cons c r =>
        have other := stop c rfl
        simp [other]
  rw [Condition.cut?, List.takeWhile_append_of_pos a.isLabelChar_of_mem_label,
    List.dropWhile_append_of_pos a.isLabelChar_of_mem_label, whole.1, whole.2, List.append_nil]
  exact if_neg (by simp [nonempty])

theorem cut?_typed (a : Attribute) {op : Operator} {before sign behind : List Char}
    (stands : op.Stands before sign behind) (literal : List Char) :
    Condition.cut? (typed a before sign behind literal) =
      some (a.label.toList, op, '"' :: (literal ++ ['"'])) := by
  cases stands with
  | like first last =>
      obtain ⟨b, rest, rfl⟩ := List.exists_cons_of_ne_nil first.nonempty
      have blank := (Text.blanks_cons.mp first.blanks).1
      rw [typed, cut?_label a (by simp [isLabelChar_of_isBlank blank]), likeOperand?_like first last]
  | @compare c _ _ _ first listed last =>
      have stop : ∀ d ∈ (before ++ (sign ++ (behind ++ '"' :: (literal ++ ['"'])))).head?,
          Condition.isLabelChar d = false := by
        cases before with
        | nil =>
            obtain ⟨d, t, rfl, _, other, _⟩ := exists_sign_cons listed
            simp [other]
        | cons b before => simp [isLabelChar_of_isBlank (Text.blanks_cons.mp first).1]
      have operand : Text.trimStart (behind ++ '"' :: (literal ++ ['"'])) = '"' :: (literal ++ ['"']) :=
        Text.trimStart_pad last _
      have read : Condition.comparison? (sign ++ (behind ++ '"' :: (literal ++ ['"']))) =
          some (c, behind ++ '"' :: (literal ++ ['"'])) := by
        cases behind with
        | nil => exact comparison?_sign listed (by decide) _
        | cons b behind =>
            have other : b ≠ '=' := by
              rintro rfl
              exact absurd (Text.blanks_cons.mp last).1 (by decide)
            exact comparison?_sign listed other _
      rw [typed, cut?_label a stop, likeOperand?_sign listed first, trimStart_sign listed first, read]
      simp only [Option.map_some, operand]

theorem unquote_string (value : List Char) : Condition.unquote ('"' :: (value ++ ['"'])) = value := by
  have trimmed : Text.trim ('"' :: (value ++ ['"'])) = '"' :: (value ++ ['"']) := by
    have quote : Text.isBlank '"' = false := by decide
    rw [Text.trim_eq_self_iff, ← List.cons_append, List.getLast?_concat]
    simp [quote]
  rw [Condition.unquote, trimmed]
  simp

section Condition
variable (a : Attribute) {op : Operator} {before sign behind : List Char}
  (stands : op.Stands before sign behind) (literal : String)
include stands

/-- What is typed is the condition of the attribute, the operator and the literal, double quotes in
the literal or not, unless the attribute is not tested with the operator. -/
theorem parse_typed : Condition.parse (typed a before sign behind literal.toList) =
    if a.allows op then .ok ⟨a, op, literal⟩
    else .error ⟨String.ofList (typed a before sign behind literal.toList), .unsupported op a⟩ := by
  rw [Condition.parse, trim_typed, cut?_typed a stands]
  simp only [a.lower_label, String.ofList_toList, a.ofLabel?_label, unquote_string]
  rfl

theorem ofText_typed : Predicate.ofText (typed a before sign behind literal.toList) =
    if a.allows op then
      match Condition.toTest ⟨a, op, literal⟩ with
      | .ok t => .ok ⟨⟨a, op, literal⟩, t⟩
      | .error reason => .error ⟨Condition.text ⟨a, op, literal⟩, reason⟩
    else .error ⟨String.ofList (typed a before sign behind literal.toList), .unsupported op a⟩ := by
  rw [Predicate.ofText, parse_typed a stands]
  cases a.allows op with
  | false => rfl
  | true => 
      simp only [if_true, bind, Except.bind]
      cases Condition.toTest ⟨a, op, literal⟩ <;> rfl

end Condition

theorem predicate_spelled {a : Attribute} {op : Operator} {literal : String}
    (allowed : a.allows op = true) {t : Test} (tested : Condition.toTest ⟨a, op, literal⟩ = .ok t) :
    Predicate.ofText (spelled a op literal.toList) = .ok ⟨⟨a, op, literal⟩, t⟩ := by
  rw [spelled_eq_typed, ofText_typed a op.stands_sign, if_pos allowed, tested]

/-! ## Answers -/

/-- What a clause answers for a record, and all that is reported on the way. -/
def answer (contents : Contents) (r : Record) (clause : String) : Reported Bool :=
  let (q, es) := Query.ofClause clause
  let (b, es') := q.holds contents r
  (b, es ++ es')

theorem ofClause_typed (a : Attribute) {op : Operator} {before sign behind : List Char}
    (stands : op.Stands before sign behind) {literal : List Char} (unquoted : '"' ∉ literal) :
    Query.ofClause (String.ofList (typed a before sign behind literal)) =
      match Predicate.ofText (typed a before sign behind literal) with
      | .ok p => (⟨[[.leaf p]]⟩, [])
      | .error e => (⟨[[.unreadable]]⟩, [e]) := by
  have node (levels : Nat) : Node.ofText levels (typed a before sign behind literal) =
      match Predicate.ofText (typed a before sign behind literal) with
      | .ok p => (.leaf p, [])
      | .error e => (.unreadable, [e]) := by
    rw [Node.ofText.eq_def]
    exact if_neg (by simp [isWrapped_typed])
  simp only [Query.ofClause, Query.ofClauseAt, String.toList_ofList,
    parseClause_typed a stands unquoted, Reported.all, node]
  cases Predicate.ofText (typed a before sign behind literal) <;> rfl

theorem holds_leaf (p : Predicate) (contents : Contents) (r : Record) :
    Query.holds ⟨[[.leaf p]]⟩ contents r = p.holds contents r := by
  simp only [Query.holds, anyHolds, allHold, Node.holds]
  rcases p.holds contents r with ⟨_ | _, es⟩ <;> simp

/-- A clause of one condition whose literal fits is answered by its test, and nothing is reported. -/
theorem holds_spelled {a : Attribute} {op : Operator} {literal : String}
    (unquoted : '"' ∉ literal.toList) (allowed : a.allows op = true) {t : Test}
    (tested : Condition.toTest ⟨a, op, literal⟩ = .ok t) {contents : Contents} {r : Record}
    {b : Bool} (answered : Predicate.test? ⟨⟨a, op, literal⟩, t⟩ contents r = .ok b) :
    ∃ q, Query.ofClause (String.ofList (spelled a op literal.toList)) = (q, []) ∧
      q.holds contents r = (b, []) := by
  refine ⟨⟨[[.leaf ⟨⟨a, op, literal⟩, t⟩]]⟩, ?_, ?_⟩
  · rw [spelled_eq_typed, ofClause_typed a op.stands_sign unquoted, ← spelled_eq_typed,
      predicate_spelled allowed tested]
  · rw [holds_leaf, Predicate.holds, answered]

/-- A clause that is one condition answers what the test of the condition answers, or nothing but the
reason why there is none. -/
theorem answer_typed (a : Attribute) {op : Operator} {before sign behind : List Char}
    (stands : op.Stands before sign behind) {literal : String} (unquoted : '"' ∉ literal.toList)
    (contents : Contents) (r : Record) :
    answer contents r (String.ofList (typed a before sign behind literal.toList)) =
      match Predicate.ofText (typed a before sign behind literal.toList) with
      | .ok p => p.holds contents r
      | .error e => (false, [e]) := by
  rw [answer, ofClause_typed a stands unquoted]
  cases Predicate.ofText (typed a before sign behind literal.toList) with
  | ok p => simp only [holds_leaf, List.nil_append]
  | error e => rfl

end FileQuery.Where
