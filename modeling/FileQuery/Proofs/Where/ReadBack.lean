import FileQuery.Proofs.Instant.Literal
import FileQuery.Proofs.Where.Spelled
import FileQuery.Report.Basic

/-! # What a report shows, read back

A condition that a field is what a report shows of a record holds of exactly the records that agree
on the field, and nothing is reported (`holds_shown`). The condition is an equation as it is written
(`spelled`), and each kind of value is shown so that its literal means it (`toTest_shown`). -/
set_option autoImplicit false
namespace FileQuery.Where

/-! ## Equations -/

def equation (a : Attribute) (value : List Char) : List Char :=
  a.label.toList ++ ([' '] ++ (['='] ++ ([' '] ++ '"' :: (value ++ ['"']))))

theorem equation_eq_spelled (a : Attribute) (value : List Char) :
    equation a value = spelled a (.compare .eq) value := rfl

/-- An equation whose literal fits is answered by its test, and nothing is reported. -/
theorem holds_equation {a : Attribute} {value : String} (unquoted : '"' ∉ value.toList)
    (allowed : a.allows (.compare .eq) = true) {t : Test}
    (tested : Condition.toTest ⟨a, .compare .eq, value⟩ = .ok t) {contents : Contents} {r : Record}
    {b : Bool} (answered : Predicate.test? ⟨⟨a, .compare .eq, value⟩, t⟩ contents r = .ok b) :
    ∃ q, Query.ofClause (String.ofList (equation a value.toList)) = (q, []) ∧
      q.holds contents r = (b, []) := by
  rw [equation_eq_spelled]
  exact holds_spelled unquoted allowed tested answered

end FileQuery.Where

/-! ## Records -/

namespace FileQuery

/-- What a record of an entry is like: its extension is normalised, its permissions are nine bits, its
dates lie in the years 1 to 9999, and its size has no more digits than can be written out. -/
structure Record.Regular (r : Record) : Prop where
  size : r.size.natAbs < 10 ^ Text.maxDecimalDigits
  extension : ∃ e, r.extension = String.ofList (normalizeExtension e)
  modified : r.modified.Dated
  created : r.created.Dated
  permissions : 0 ≤ r.permissions ∧ r.permissions < 512

theorem Record.regular_ofEntry (path : String) (kind : Kind) {size : Int} (mode : Int)
    {modified created : Instant} (short : size.natAbs < 10 ^ Text.maxDecimalDigits)
    (changed : modified.Dated) (made : created.Dated) :
    (ofEntry path kind size mode modified created).Regular where
  size := by
    simp only [ofEntry]
    split
    · exact Nat.pow_pos (by decide)
    · exact short
  extension := by
    simp only [ofEntry]
    split
    · exact ⟨[], rfl⟩
    · exact ⟨_, rfl⟩
  modified := changed
  created := made
  permissions := by
    simp only [ofEntry, permissionBits]
    omega

/-- Whether two records have the same value of a field, dates to the millisecond. -/
def Record.Agrees (r s : Record) : Field → Prop
  | .modified => r.modified.micros / 1000 = s.modified.micros / 1000
  | .created => r.created.micros / 1000 = s.created.micros / 1000
  | f => r.get f = s.get f

theorem Instant.truncateToMillis_micros_inj {i j : Instant} :
    i.truncateToMillis.micros = j.truncateToMillis.micros ↔ i.micros / 1000 = j.micros / 1000 := by
  simp only [truncateToMillis]
  omega

namespace Where

/-- The literal that a report shows for a field is read as the value of the field. -/
theorem toTest_shown {r : Record} (regular : r.Regular) {a : Attribute} {f : Field}
    (same : a.label = f.label) :
    a.allows (.compare .eq) = true ∧
      ∃ t, Condition.toTest ⟨a, .compare .eq, Report.fieldText r f⟩ = .ok t ∧
        ∀ c contents s, ∃ b, Predicate.test? ⟨c, t⟩ contents s = .ok b ∧ (b = true ↔ s.Agrees r f) := by
  cases f with
  | path => exact absurd same (by cases a <;> decide)
  | name =>
      obtain rfl := Attribute.eq_of_label (b := .name) same
      refine ⟨rfl, _, rfl, fun c contents s => ⟨_, rfl, ?_⟩⟩
      simp [Comparison.holdsText, Record.Agrees, Record.get, Report.fieldText, Record.shown]
  | size =>
      obtain rfl := Attribute.eq_of_label (b := .size) same
      have read := Text.readDecimal_toString regular.size
      refine ⟨rfl, .size .eq r.size, ?_, fun c contents s => ⟨_, rfl, ?_⟩⟩
      · simp only [Condition.toTest, Report.fieldText, Record.shown, read]
      · simp [Comparison.holds, Record.Agrees, Record.get]
  | extension =>
      obtain rfl := Attribute.eq_of_label (b := .extension) same
      obtain ⟨e, normal⟩ := regular.extension
      have read : String.ofList (normalizeExtension r.extension.toList) = r.extension := by
        rw [normal, String.toList_ofList, normalizeExtension_normalizeExtension]
      refine ⟨rfl, .extension .eq r.extension, ?_, fun c contents s => ⟨_, rfl, ?_⟩⟩
      · simp only [Condition.toTest, Report.fieldText, Record.shown, read]
      · simp [Comparison.holdsText, Record.Agrees, Record.get]
  | modified =>
      obtain rfl := Attribute.eq_of_label (b := .modified) same
      have read := regular.modified.dateOf?_iso
      refine ⟨rfl, .modified .eq r.modified.truncateToMillis, ?_, fun c contents s => ⟨_, rfl, ?_⟩⟩
      · simp only [Condition.toTest, Report.fieldText, Record.shown, read]
      · exact decide_eq_true_iff.trans Instant.truncateToMillis_micros_inj
  | created =>
      obtain rfl := Attribute.eq_of_label (b := .created) same
      have read := regular.created.dateOf?_iso
      refine ⟨rfl, .created .eq r.created.truncateToMillis, ?_, fun c contents s => ⟨_, rfl, ?_⟩⟩
      · simp only [Condition.toTest, Report.fieldText, Record.shown, read]
      · exact decide_eq_true_iff.trans Instant.truncateToMillis_micros_inj
  | permissions =>
      obtain rfl := Attribute.eq_of_label (b := .permissions) same
      have read : Text.readOctal? (formatPermissions r.permissions).toList =
          some (permissionBits r.permissions : Int) := Text.readOctal?_octal 4 _
      have bits : (permissionBits (permissionBits r.permissions : Nat) : Int) = r.permissions := by
        have range := regular.permissions
        simp only [permissionBits]
        omega
      refine ⟨rfl, .permissions .eq (permissionBits (permissionBits r.permissions : Nat)), ?_,
        fun c contents s => ⟨_, rfl, ?_⟩⟩
      · simp only [Condition.toTest, Report.fieldText, Record.shown, read]
      · simp [Comparison.holds, Record.Agrees, Record.get, bits]

/-- A condition that a field is what a report shows of a record holds of exactly the records that
agree on the field, and nothing is reported. -/
theorem holds_shown {r : Record} (regular : r.Regular) {a : Attribute} {f : Field}
    (same : a.label = f.label) (unquoted : '"' ∉ (Report.fieldText r f).toList) (s : Record)
    (contents : Contents) :
    ∃ q b, Query.ofClause (a.label ++ " = \"" ++ Report.fieldText r f ++ "\"") = (q, []) ∧
      q.holds contents s = (b, []) ∧ (b = true ↔ s.Agrees r f) := by
  have clause : a.label ++ " = \"" ++ Report.fieldText r f ++ "\"" =
      String.ofList (equation a (Report.fieldText r f).toList) := by
    rw [← String.toList_inj]
    simp [equation]
  obtain ⟨allowed, t, tested, answers⟩ := toTest_shown regular same
  obtain ⟨b, answered, agrees⟩ := answers ⟨a, .compare .eq, Report.fieldText r f⟩ contents s
  obtain ⟨q, made, holds⟩ := holds_equation unquoted allowed tested answered
  exact ⟨q, b, clause ▸ made, holds, agrees⟩

/-- A folder that was modified some microseconds later, within the same millisecond. -/
theorem holds_shown_millisecond :
    ∃ q, Query.ofClause "modified = \"2024-05-04T03:02:01.123456+00:00\"" = (q, []) ∧
      q.holds {} (Record.ofEntry "/work/b" .folder 0 16877 ⟨1714791721123999⟩ ⟨0⟩) = (true, []) := by
  have regular : (Record.ofEntry "/work/A.TXT" .file 5 33188 ⟨1714791721123456⟩ ⟨0⟩).Regular :=
    Record.regular_ofEntry _ _ _ (by decide +kernel) (by decide) (by decide)
  obtain ⟨q, b, made, holds, agrees⟩ := holds_shown regular (a := .modified) (f := .modified) rfl
    (by decide +kernel) (Record.ofEntry "/work/b" .folder 0 16877 ⟨1714791721123999⟩ ⟨0⟩) {}
  have text : Attribute.label .modified ++ " = \"" ++ Report.fieldText
      (Record.ofEntry "/work/A.TXT" .file 5 33188 ⟨1714791721123456⟩ ⟨0⟩) .modified ++ "\"" =
      "modified = \"2024-05-04T03:02:01.123456+00:00\"" := by
    decide +kernel
  have same : b = true := agrees.mpr rfl
  exact ⟨q, text ▸ made, same ▸ holds⟩

end Where

end FileQuery
