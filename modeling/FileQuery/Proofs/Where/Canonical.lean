import FileQuery.Proofs.Text.Digit
import FileQuery.Proofs.Where.Evaluation
import FileQuery.Proofs.Where.Spelled

/-! # The canonical text of a condition

A condition that was read is written so that it is read again: its literal stands between double quotes,
whatever it is, and is found there as it was (`parse_text`). A size stands bare, and its literal is read
without the blanks around it, which an integer does not need (`parse_text_size`); so the test that is
made of what was written is the one that was made before (`canonical_text_faithful`). -/
set_option autoImplicit false
namespace FileQuery.Where

namespace Condition

theorem parse_text {c : Condition} (allowed : c.subject.allows c.operator = true)
    (quoted : c.subject ≠ .size) : parse c.text.toList = .ok c := by
  obtain ⟨a, op, literal⟩ := c
  have written : (Condition.text ⟨a, op, literal⟩).toList =
      typed a [' '] op.sign.toList [' '] literal.toList := by
    simp only at quoted
    simp [Condition.text, typed, quoted]
  rw [written, parse_typed a op.stands_sign, if_pos allowed]

/-! ## Sizes -/

section Size
variable (op : Comparison) {literal : List Char} {n : Int}

theorem cut?_size (lead : List Char) (blanks : Text.Blanks lead) (number : List Char)
    (solid : Text.trimStart number = number) :
    cut? (Attribute.size.label.toList ++ ([' '] ++ (op.sign.toList ++ (' ' :: (lead ++ number))))) =
      some (Attribute.size.label.toList, .compare op, number) := by
  have listed : (op.sign.toList, op) ∈ signs := by cases op <;> decide
  have behind : Text.trimStart (' ' :: (lead ++ number)) = number := by
    have gap : Text.Blanks (' ' :: lead) := Text.blanks_cons.mpr ⟨by decide, blanks⟩
    rw [← List.cons_append, Text.trimStart_pad gap, solid]
  rw [cut?_label .size (by simp; decide), likeOperand?_sign listed gap_space.blanks,
    trimStart_sign listed gap_space.blanks, comparison?_sign listed (by decide)]
  simp only [Option.map_some, behind]

theorem unquote_of_readDecimal (read : Text.readDecimal literal = .ok n) :
    unquote (Text.trimInteger literal) = Text.trimInteger literal := by
  obtain ⟨-, solid⟩ := Text.solid_of_readDecimal read
  have trimmed : Text.trim (Text.trimInteger literal) = Text.trimInteger literal := by
    rw [← Text.trim_of_readDecimal read, Text.trim_trim]
  rw [unquote, trimmed]
  split
  · next q r same =>
      obtain ⟨-, double, single⟩ := solid q (same ▸ List.mem_cons_self)
      rw [if_neg]
      rintro ⟨rfl | rfl, -⟩
      · exact double rfl
      · exact single rfl
  · rfl

theorem parse_text_size {literal : String} (read : Text.readDecimal literal.toList = .ok n) :
    parse (text ⟨.size, .compare op, literal⟩).toList =
      .ok ⟨.size, .compare op, String.ofList (Text.trim literal.toList)⟩ := by
  obtain ⟨lead, trail, left, right, same⟩ := Text.exists_trimInteger literal.toList
  have trimmed := Text.trim_of_readDecimal read
  have again := Text.trim_trim literal.toList
  rw [trimmed] at again
  obtain ⟨nonempty, solid⟩ := Text.solid_of_readDecimal read
  have label : Text.trim Attribute.size.label.toList = Attribute.size.label.toList := by decide
  have written : (text ⟨.size, .compare op, literal⟩).toList =
      ([] ++ (Attribute.size.label.toList ++ (([' '] ++ (op.sign.toList ++ (' ' :: lead))) ++
        Text.trimInteger literal.toList))) ++ trail := by
    have whole : literal.toList = lead ++ (Text.trimInteger literal.toList ++ trail) := same
    simp only [text, if_pos, String.toList_append, Operator.sign]
    conv_lhs => rw [whole]
    simp
  have cut := cut?_size op lead left (Text.trimInteger literal.toList)
    (Text.trimStart_eq_self_iff.mpr (Text.trim_eq_self_iff.mp again).1)
  have inner : ([' '] ++ (op.sign.toList ++ (' ' :: lead))) ++ Text.trimInteger literal.toList =
      [' '] ++ (op.sign.toList ++ (' ' :: (lead ++ Text.trimInteger literal.toList))) := by simp
  rw [written, parse, Text.trim_pad Text.blanks_nil right,
    Text.trim_between label again (by decide) nonempty, inner, cut]
  simp only [Attribute.lower_label, String.ofList_toList, Attribute.ofLabel?_label,
    unquote_of_readDecimal read, trimmed]
  rfl

end Size

end Condition

namespace Predicate

/-- The comparison of a size answers for every record, so it has nothing to report. -/
theorem holds_size {p q : Predicate} {op : Comparison} {n : Int} (left : p.test = .size op n)
    (right : q.test = .size op n) (contents : Contents) (r : Record) :
    p.holds contents r = q.holds contents r := by
  rw [holds, holds, test?, test?, left, right]

end Predicate

/-- What a condition is written as is read as that condition, unless it is of a size; and whenever the
condition has a predicate, what it is written as has one that answers alike for every record, whatever
the contents are, and reports the same. -/
theorem canonical_text_faithful {text : List Char} {c : Condition}
    (parsed : Condition.parse text = .ok c) :
    (c.subject ≠ .size → Condition.parse c.text.toList = .ok c) ∧
    ∀ p, Predicate.ofText text = .ok p →
      ∃ p', Condition.parse c.text.toList = .ok p'.condition ∧
        Predicate.ofText c.text.toList = .ok p' ∧
        ∀ contents r, p'.holds contents r = p.holds contents r := by
  have allowed := Condition.allows_of_parse parsed
  refine ⟨Condition.parse_text allowed, fun p made => ?_⟩
  obtain ⟨again, tested⟩ := Predicate.ofText_eq_ok_iff.mp made
  obtain rfl := Except.ok.inj (again.symm.trans parsed)
  by_cases quoted : p.condition.subject = .size
  · obtain ⟨⟨a, op, literal⟩, t⟩ := p
    obtain rfl : a = .size := quoted
    cases op with
    | like => cases allowed
    | compare op =>
        cases read : Text.readDecimal literal.toList with
        | error e =>
            simp only [Condition.toTest, read] at tested
            cases tested
        | ok n =>
            simp only [Condition.toTest, read] at tested
            obtain rfl := Except.ok.inj tested
            have trimmed : Condition.toTest
                ⟨.size, .compare op, String.ofList (Text.trim literal.toList)⟩ = .ok (.size op n) := by
              simp only [Condition.toTest, String.toList_ofList, Text.readDecimal_trim read]
            have written := Condition.parse_text_size op read
            exact ⟨⟨_, .size op n⟩, written, Predicate.ofText_eq_ok_iff.mpr ⟨written, trimmed⟩,
              Predicate.holds_size rfl rfl⟩
  · have written := Condition.parse_text allowed quoted
    exact ⟨p, written, Predicate.ofText_eq_ok_iff.mpr ⟨written, tested⟩, fun _ _ => rfl⟩

/-- A size in quotes with blanks around it is written bare, and read without them. -/
theorem canonical_text_of_size :
    Condition.parse "SIZE>=' 1_024 '".toList = .ok ⟨.size, .compare .ge, " 1_024 "⟩ ∧
    Condition.text ⟨.size, .compare .ge, " 1_024 "⟩ = "size >=  1_024 " ∧
    ∃ p', Condition.parse "size >=  1_024 ".toList = .ok p'.condition ∧
      Predicate.ofText "size >=  1_024 ".toList = .ok p' ∧
      ∀ contents r, p'.holds contents r =
        Predicate.holds ⟨⟨.size, .compare .ge, " 1_024 "⟩, .size .ge 1024⟩ contents r := by
  have parsed : Condition.parse "SIZE>=' 1_024 '".toList = .ok ⟨.size, .compare .ge, " 1_024 "⟩ := by
    decide +kernel
  have made : Predicate.ofText "SIZE>=' 1_024 '".toList =
      .ok ⟨⟨.size, .compare .ge, " 1_024 "⟩, .size .ge 1024⟩ := by
    decide +kernel
  exact ⟨parsed, by decide +kernel, (canonical_text_faithful parsed).2 _ made⟩

end FileQuery.Where
