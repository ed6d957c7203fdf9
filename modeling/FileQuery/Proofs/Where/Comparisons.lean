import FileQuery.Proofs.Where.Dates

/-! # Comparisons with one literal

Whether an attribute takes a literal is settled before any record is looked at, and whatever the
operator is. What the comparisons with a literal it takes answer for one record fits together, and with
any other literal every condition answers no and reports one thing (`comparisons_cohere`). -/
set_option autoImplicit false
namespace FileQuery.Where

/-! ## Answers that fit together -/

namespace Comparison

/-- Answers of the six comparisons as one order gives them. -/
structure Ordered (holds : Comparison → Bool) : Prop where
  ne : holds .ne = !holds .eq
  one : [holds .lt, holds .eq, holds .gt].count true = 1
  ge : holds .ge = (holds .gt || holds .eq)
  le : holds .le = (holds .lt || holds .eq)

theorem ordered_holds (a b : Int) : Ordered fun c => c.holds a b := by
  rcases Int.lt_trichotomy a b with less | rfl | more
  · have apart : a ≠ b ∧ ¬ b < a ∧ ¬ b ≤ a ∧ a ≤ b := by omega
    constructor <;> simp [holds, less, apart]
  · constructor <;> simp [holds]
  · have apart : a ≠ b ∧ ¬ a < b ∧ ¬ a ≤ b ∧ b ≤ a := by omega
    constructor <;> simp [holds, more, apart]

end Comparison

/-! ## Literals of an attribute -/

/-- Whether a literal is a value of an attribute: a decimal number of a size, a date of a time, octal
digits of permissions, and any text of the others. -/
def Attribute.Takes : Attribute → String → Prop
  | size, literal => ∃ n, Text.readDecimal literal.toList = .ok n
  | modified, literal | created, literal => ∃ t, DateTime.read literal = .ok t
  | permissions, literal => ∃ n, Text.readOctal? literal.toList = some n
  | name, _ | content, _ | extension, _ => True

/-- What the comparisons with a literal answer for a record, without looking at its content. -/
structure Answers (a : Attribute) (literal : String) (r : Record) (holds : Comparison → Bool) :
    Prop where
  tested : ∀ c, a.allows (.compare c) = true →
    ∃ t, Condition.toTest ⟨a, .compare c, literal⟩ = .ok t ∧
      ∀ contents, Predicate.test? ⟨⟨a, .compare c, literal⟩, t⟩ contents r = .ok (holds c)
  negated : holds .ne = !holds .eq
  ordered : a ∈ [Attribute.size, .modified, .created] → Comparison.Ordered holds

section Answers
variable {a : Attribute} {literal : String}

theorem answers_date {time : Record → Instant} (dated : a.time? = some time) {t : DateTime}
    (read : DateTime.read literal = .ok t) (r : Record) :
    Answers a literal r fun c =>
      c.holds (time r).truncateToMillis.micros t.truncateToMillis.toInstant.micros := by
  have ordered := Comparison.ordered_holds (time r).truncateToMillis.micros
    t.truncateToMillis.toInstant.micros
  refine ⟨fun c _ => ?_, ordered.ne, fun _ => ordered⟩
  obtain ⟨_, test, tested, answers⟩ := test?_date dated c read
  exact ⟨test, tested, fun contents => answers _ contents r⟩

theorem exists_answers (taken : a.Takes literal) (r : Record) :
    ∃ holds, Answers a literal r holds := by
  cases a with
  | name =>
      refine ⟨fun c => c.holdsText r.name literal, fun c _ => ⟨_, rfl, fun _ => rfl⟩, rfl, ?_⟩
      exact fun impossible => absurd impossible (by decide)
  | content =>
      -- content is compared with nothing, so any answers that fit together will do
      refine ⟨fun c => c.holdsText literal literal, fun c allowed => ?_, rfl, ?_⟩
      · cases allowed
      · exact fun impossible => absurd impossible (by decide)
  | extension =>
      refine ⟨fun c => c.holdsText r.extension _, fun c _ => ⟨_, rfl, fun _ => rfl⟩, rfl, ?_⟩
      exact fun impossible => absurd impossible (by decide)
  | size =>
      obtain ⟨n, read⟩ := taken
      have ordered := Comparison.ordered_holds r.size n
      refine ⟨fun c => c.holds r.size n, fun c _ => ⟨.size c n, ?_, fun _ => rfl⟩, ordered.ne,
        fun _ => ordered⟩
      simp only [Condition.toTest, read]
  | modified =>
      obtain ⟨t, read⟩ := taken
      exact ⟨_, answers_date rfl read r⟩
  | created =>
      obtain ⟨t, read⟩ := taken
      exact ⟨_, answers_date rfl read r⟩
  | permissions =>
      obtain ⟨n, read⟩ := taken
      refine ⟨fun c => c.holds r.permissions (permissionBits n),
        fun c _ => ⟨.permissions c (permissionBits n), ?_, fun _ => rfl⟩,
        (Comparison.ordered_holds _ _).ne, fun impossible => absurd impossible (by decide)⟩
      simp only [Condition.toTest, read]

/-- A literal that an attribute does not take makes no test, whatever the operator. -/
theorem toTest_of_not_takes (refused : ¬ a.Takes literal) {op : Operator}
    (allowed : a.allows op = true) :
    ∃ reason, Condition.toTest ⟨a, op, literal⟩ = .error reason := by
  cases op with
  | like =>
      cases a with
      | name | content => exact absurd trivial refused
      | extension | size | modified | created | permissions => cases allowed
  | compare c =>
      cases a with
      | name | content | extension => exact absurd trivial refused
      | size =>
          cases read : Text.readDecimal literal.toList with
          | ok n => exact absurd ⟨n, read⟩ refused
          | error e => exact ⟨.notAnInteger literal, by simp only [Condition.toTest, read]⟩
      | modified | created =>
          cases read : DateTime.read literal with
          | ok t => exact absurd ⟨t, read⟩ refused
          | error e =>
              exact ⟨.invalidDate literal, by simp only [Condition.toTest, Condition.dateOf?, read]⟩
      | permissions =>
          cases read : Text.readOctal? literal.toList with
          | some n => exact absurd ⟨n, read⟩ refused
          | none => exact ⟨.invalidMode literal, by simp only [Condition.toTest, read]⟩

variable (unquoted : '"' ∉ literal.toList) {contents : Contents} {r : Record} {op : Operator}
  {before sign behind : List Char} (stands : op.Stands before sign behind)
include unquoted stands

/-- A condition that its attribute allows answers by its test alone, however it is typed. -/
theorem answer_of_allows (allowed : a.allows op = true) :
    answer contents r (String.ofList (typed a before sign behind literal.toList)) =
      match Condition.toTest ⟨a, op, literal⟩ with
      | .ok t => Predicate.holds ⟨⟨a, op, literal⟩, t⟩ contents r
      | .error reason => (false, [⟨Condition.text ⟨a, op, literal⟩, reason⟩]) := by
  rw [answer_typed a stands unquoted, ofText_typed a stands, if_pos allowed]
  cases Condition.toTest ⟨a, op, literal⟩ <;> rfl

theorem answer_of_not_allows (barred : a.allows op = false) :
    answer contents r (String.ofList (typed a before sign behind literal.toList)) =
      (false, [⟨String.ofList (typed a before sign behind literal.toList), .unsupported op a⟩]) := by
  rw [answer_typed a stands unquoted, ofText_typed a stands, if_neg (by simp [barred])]

theorem answer_of_not_takes (refused : ¬ a.Takes literal) :
    ∃ e, answer contents r (String.ofList (typed a before sign behind literal.toList)) =
      (false, [e]) := by
  cases allowed : a.allows op with
  | false => exact ⟨_, answer_of_not_allows unquoted stands allowed⟩
  | true =>
      obtain ⟨reason, fails⟩ := toTest_of_not_takes refused allowed
      refine ⟨⟨Condition.text ⟨a, op, literal⟩, reason⟩, ?_⟩
      rw [answer_of_allows unquoted stands allowed, fails]

end Answers

/-! ## The comparisons of an attribute -/

theorem Attribute.allows_equality {a : Attribute} (compared : a ≠ .content) :
    a.allows (.compare .eq) = true ∧ a.allows (.compare .ne) = true := by
  cases a with
  | content => exact absurd rfl compared
  | name | extension | size | modified | created | permissions => exact ⟨rfl, rfl⟩

/-- A literal with no double quote in it, between double quotes behind an attribute and an operator:
if the attribute takes it, the comparisons that the attribute allows report nothing, and what they
answer fits together; if not, every condition on it answers no and reports one thing. Either way
`==` and `=` are one operator. -/
theorem comparisons_cohere (a : Attribute) (literal : String) (unquoted : '"' ∉ literal.toList)
    (contents : Contents) (r : Record) :
    (a.Takes literal → ∃ holds : Comparison → Bool,
      (∀ (c : Comparison) (before sign behind : List Char),
        Operator.Stands (.compare c) before sign behind → a.allows (.compare c) = true →
          answer contents r (String.ofList (typed a before sign behind literal.toList)) =
            (holds c, [])) ∧
      (a ≠ .content → a.allows (.compare .eq) = true ∧ a.allows (.compare .ne) = true ∧
        holds .ne = !holds .eq) ∧
      (a ∈ [Attribute.size, .modified, .created] →
        (∀ c, a.allows (.compare c) = true) ∧ Comparison.Ordered holds)) ∧
    (¬ a.Takes literal → ∀ (op : Operator) (before sign behind : List Char),
      op.Stands before sign behind →
        ∃ e, answer contents r (String.ofList (typed a before sign behind literal.toList)) =
          (false, [e])) ∧
    (∀ before behind : List Char, Text.Blanks before → Text.Blanks behind →
      let double := answer contents r (String.ofList (typed a before ['=', '='] behind literal.toList))
      let single := answer contents r (String.ofList (typed a before ['='] behind literal.toList))
      double.1 = single.1 ∧
        double.2.map ConditionError.reason = single.2.map ConditionError.reason ∧
        (a ≠ .content → double = single)) := by
  refine ⟨fun taken => ?_, ?_, fun before behind first last => ?_⟩
  · obtain ⟨holds, answers⟩ := exists_answers taken r
    refine ⟨holds, fun c before sign behind stands allowed => ?_, fun compared => ?_, fun listed => ?_⟩
    · obtain ⟨t, tested, answered⟩ := answers.tested c allowed
      rw [answer_of_allows unquoted stands allowed, tested]
      simp only [Predicate.holds, answered]
    · obtain ⟨eq, ne⟩ := Attribute.allows_equality compared
      exact ⟨eq, ne, answers.negated⟩
    · refine ⟨fun c => ?_, answers.ordered listed⟩
      simp only [List.mem_cons, List.not_mem_nil, or_false] at listed
      rcases listed with rfl | rfl | rfl <;> rfl
  · exact fun refused op before sign behind stands => answer_of_not_takes unquoted stands refused
  · have double : Operator.Stands (.compare .eq) before ['=', '='] behind :=
      .compare first (by decide) last
    have single : Operator.Stands (.compare .eq) before ['='] behind :=
      .compare first (by decide) last
    cases allowed : a.allows (.compare .eq) with
    | false =>
        rw [answer_of_not_allows unquoted double allowed, answer_of_not_allows unquoted single allowed]
        refine ⟨rfl, rfl, fun compared => ?_⟩
        exact absurd (Attribute.allows_equality compared).1 (by simp [allowed])
    | true =>
        rw [answer_of_allows unquoted double allowed, answer_of_allows unquoted single allowed]
        exact ⟨rfl, rfl, fun _ => rfl⟩

/-- A number that a size is compared with, and a text that it is not. -/
theorem sizes_cohere :
    ∃ holds : Comparison → Bool,
      answer {} (Record.ofEntry "/work/a" .file 5 33188 ⟨0⟩ ⟨0⟩) "size>=\"10\"" = (holds .ge, []) ∧
        Comparison.Ordered holds ∧
        ∃ e, answer {} (Record.ofEntry "/work/a" .file 5 33188 ⟨0⟩ ⟨0⟩) "size == \"ten\"" =
          (false, [e]) := by
  have closeBy : Operator.Stands (.compare .ge) [] ['>', '='] [] :=
    .compare (by decide) (by decide) (by decide)
  have apart : Operator.Stands (.compare .eq) [' '] ['=', '='] [' '] :=
    .compare (by decide) (by decide) (by decide)
  obtain ⟨taken, _⟩ := comparisons_cohere .size "10" (by decide) {}
    (Record.ofEntry "/work/a" .file 5 33188 ⟨0⟩ ⟨0⟩)
  obtain ⟨_, refused, _⟩ := comparisons_cohere .size "ten" (by decide) {}
    (Record.ofEntry "/work/a" .file 5 33188 ⟨0⟩ ⟨0⟩)
  obtain ⟨holds, answers, _, ordered⟩ := taken ⟨10, by decide⟩
  have no : ¬ Attribute.Takes .size "ten" := by
    have fails : (Text.readDecimal "ten".toList).toOption = none := by decide
    rintro ⟨n, read⟩
    rw [read] at fails
    cases fails
  have number : String.ofList (typed .size [] ['>', '='] [] "10".toList) = "size>=\"10\"" := by
    decide
  have word : String.ofList (typed .size [' '] ['=', '='] [' '] "ten".toList) =
      "size == \"ten\"" := by
    decide
  refine ⟨holds, ?_, (ordered (by decide)).2, ?_⟩
  · exact number ▸ answers .ge _ _ _ closeBy rfl
  · exact word ▸ refused no _ _ _ _ apart

end FileQuery.Where
