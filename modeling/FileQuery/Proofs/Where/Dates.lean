import FileQuery.Proofs.Where.Spelled

/-! # Conditions on dates

A condition on a date compares milliseconds: that of the record, counted from the start of 1970, and
that of the literal, which is cut on its own clock. The two cuts are the same if the offset of the
literal is a number of whole milliseconds; otherwise the literal may count as another instant of its
millisecond or of the one before or behind, and then comparisons with records of the millisecond of the
literal can go wrong (`date_agrees_iff`). -/
set_option autoImplicit false
namespace FileQuery

/-! ## Literals -/

namespace DateTime

def Naive (literal : String) : Prop :=
  ∃ fields time, readFields (Text.trim literal.toList) = some (fields, time) ∧
    time.bind (·.2) = none

variable {literal : String} {t : DateTime}

/-- A literal that is read has the offset that is written in it, and none is that of UTC. -/
theorem offset_of_read (read : DateTime.read literal = .ok t) :
    ∃ fields time, readFields (Text.trim literal.toList) = some (fields, time) ∧
      t.offset = (time.bind (·.2)).getD 0 := by
  rw [DateTime.read] at read
  cases found : readFields (Text.trim literal.toList) with
  | none => simp [found, throw, throwThe, MonadExceptOf.throw] at read
  | some parts =>
      obtain ⟨fields, time⟩ := parts
      refine ⟨fields, time, rfl, ?_⟩
      simp only [found] at read
      cases week : weekExists fields with
      | false =>
          simp only [week, Bool.not_false, if_true] at read
          cases read
      | true =>
          by_cases far : (Instant.microsPerDay : Int) ≤ ((time.bind (·.2)).getD 0).natAbs
          · simp only [week, if_pos far, Bool.not_true, Bool.false_eq_true, if_false] at read
            cases read
          · simp only [week, if_neg far, Bool.not_true, Bool.false_eq_true, if_false] at read
            cases date : resolveDate fields with
            | error e => simp [date, bind, Except.bind] at read
            | ok d =>
                rw [date] at read
                rcases time with _ | ⟨clock, offset⟩
                · exact (congrArg DateTime.offset (Except.ok.inj read)).symm
                · cases micros : resolveClock clock with
                  | error e => simp [micros, bind, Except.bind] at read
                  | ok n =>
                      simp only [micros] at read
                      exact (congrArg DateTime.offset (Except.ok.inj read)).symm

theorem offset_of_naive (read : DateTime.read literal = .ok t) (naive : Naive literal) :
    t.offset = 0 := by
  obtain ⟨fields, time, said, offset⟩ := offset_of_read read
  obtain ⟨fields', time', said', absent⟩ := naive
  obtain ⟨rfl, rfl⟩ := Prod.mk.inj (Option.some.inj (said.symm.trans said'))
  rw [offset, absent, Option.getD_none]

theorem micros_truncateToMillis (t : DateTime) :
    t.truncateToMillis.toInstant.micros = t.toInstant.micros - (t.clock % 1000 : Nat) := by
  simp only [truncateToMillis, toInstant]
  omega

end DateTime

namespace Where

/-! ## Comparisons -/

/-- Whether a comparison with a date and time cut on its clock is one with the millisecond of its
instant, for instants of that millisecond too. If the offset has a part below a millisecond, the cut
lies before the start of the millisecond where the clock shows as much as that part, and behind the
start where it shows less. -/
def Comparison.Exact (t : DateTime) : Comparison → Prop
  | .eq | .ne => 1000 ∣ t.offset
  | .lt | .ge => t.offset % 1000 ≤ t.clock % 1000
  | .gt | .le => 1000 ∣ t.offset ∨ t.clock % 1000 < t.offset % 1000

theorem Comparison.exact_of_dvd (c : Comparison) {t : DateTime} (whole : 1000 ∣ t.offset) :
    c.Exact t := by
  cases c <;> simp only [Exact] <;> omega

/-- A comparison with an instant cut on its clock is one with its millisecond, unless it is not exact
and the two milliseconds are the same. -/
theorem Comparison.holds_truncated_iff (c : Comparison) (i : Instant) (t : DateTime) :
    c.holds i.truncateToMillis.micros t.truncateToMillis.toInstant.micros =
        c.holds (i.micros / 1000) (t.toInstant.micros / 1000) ↔
      c.Exact t ∨ i.micros / 1000 ≠ t.toInstant.micros / 1000 := by
  rw [t.micros_truncateToMillis]
  obtain ⟨k, offset⟩ : ∃ k : Int, t.toInstant.micros = 1000 * k + t.clock - t.offset :=
    ⟨((t.date.dayNumber : Int) - Instant.epochDay) * 86400000, by
      simp only [DateTime.toInstant, Instant.microsPerDay]
      omega⟩
  simp only [Instant.truncateToMillis]
  generalize t.toInstant.micros = j at offset
  cases c <;> simp only [holds, Exact, decide_eq_decide] <;> omega

/-! ## Conditions -/

/-- The time of a record that an attribute stands for, if it stands for one. -/
def Attribute.time? : Attribute → Option (Record → Instant)
  | .modified => some Record.modified
  | .created => some Record.created
  | _ => none

theorem dateOf?_of_read {literal : String} {t : DateTime} (read : DateTime.read literal = .ok t) :
    Condition.dateOf? literal = some t.truncateToMillis.toInstant := by
  rw [Condition.dateOf?, read]

/-- A condition on a date whose literal is read can be tested on every record, and compares the time of
the record with the literal, each cut to the millisecond. -/
theorem test?_date {a : Attribute} {time : Record → Instant} (dated : a.time? = some time)
    (op : Comparison) {literal : String} {t : DateTime} (read : DateTime.read literal = .ok t) :
    a.allows (.compare op) = true ∧
      ∃ test, Condition.toTest ⟨a, .compare op, literal⟩ = .ok test ∧
        ∀ c contents r, Predicate.test? ⟨c, test⟩ contents r =
          .ok (op.holds (time r).truncateToMillis.micros t.truncateToMillis.toInstant.micros) := by
  have said := dateOf?_of_read read
  cases a with
  | modified =>
      obtain rfl := Option.some.inj dated
      refine ⟨rfl, .modified op t.truncateToMillis.toInstant, ?_, fun c contents r => rfl⟩
      simp only [Condition.toTest, said]
  | created =>
      obtain rfl := Option.some.inj dated
      refine ⟨rfl, .created op t.truncateToMillis.toInstant, ?_, fun c contents r => rfl⟩
      simp only [Condition.toTest, said]
  | name | content | extension | size | permissions => exact absurd dated (by simp [Attribute.time?])

/-- A condition on a date with a literal that is read can be tested on every record, with nothing
reported; it compares the time of the record with the literal, each cut to the millisecond on its own
clock, which is a comparison of the milliseconds of the two instants unless it is not exact and these
are the same. So is the answer of the query that is made of the condition, if no double quote stands
between the quotes. -/
theorem date_agrees_iff {a : Attribute} {time : Record → Instant} (dated : a.time? = some time)
    (op : Comparison) {literal : String} {t : DateTime} (read : DateTime.read literal = .ok t)
    (contents : Contents) (r : Record) :
    ∃ p b, Predicate.ofText (spelled a (.compare op) literal.toList) = .ok p ∧
      p.holds contents r = (b, []) ∧
      ('"' ∉ literal.toList →
        ∃ q, Query.ofClause (String.ofList (spelled a (.compare op) literal.toList)) = (q, []) ∧
          q.holds contents r = (b, [])) ∧
      b = op.holds ((time r).micros / 1000 * 1000) (t.toInstant.micros - (t.clock % 1000 : Nat)) ∧
      (b = op.holds ((time r).micros / 1000) (t.toInstant.micros / 1000) ↔
        op.Exact t ∨ (time r).micros / 1000 ≠ t.toInstant.micros / 1000) ∧
      (DateTime.Naive literal → t.offset = 0 ∧ op.Exact t) := by
  obtain ⟨allowed, test, tested, answers⟩ := test?_date dated op read
  have answered := answers ⟨a, .compare op, literal⟩ contents r
  refine ⟨⟨⟨a, .compare op, literal⟩, test⟩, _, predicate_spelled allowed tested, ?_, ?_, ?_,
    op.holds_truncated_iff (time r) t, ?_⟩
  · rw [Predicate.holds, answered]
  · exact fun unquoted => holds_spelled unquoted allowed tested answered
  · rw [t.micros_truncateToMillis, Instant.truncateToMillis]
  · intro naive
    have utc := DateTime.offset_of_naive read naive
    exact ⟨utc, op.exact_of_dvd (utc ▸ Int.dvd_zero 1000)⟩

/-- A record of the last millisecond before 1970, and a literal two hours ahead of UTC in the same
millisecond. -/
theorem date_agrees_before_epoch :
    ∃ q, Query.ofClause "created >= \"1970-01-01T01:59:59.999400+02:00\"" = (q, []) ∧
      q.holds {} (Record.ofEntry "/work/a" .file 0 33188 ⟨0⟩ ⟨-900⟩) = (true, []) := by
  have read : DateTime.read "1970-01-01T01:59:59.999400+02:00" =
      .ok ⟨⟨1970, 1, 1⟩, 7199999400, 7200000000⟩ := by
    decide
  obtain ⟨p, b, _, _, clause, _, agrees, _⟩ := date_agrees_iff (a := .created) rfl .ge read {}
    (Record.ofEntry "/work/a" .file 0 33188 ⟨0⟩ ⟨-900⟩)
  obtain ⟨q, made, holds⟩ := clause (by decide)
  have text : String.ofList (spelled .created (.compare .ge)
      "1970-01-01T01:59:59.999400+02:00".toList) =
      "created >= \"1970-01-01T01:59:59.999400+02:00\"" := by
    decide
  have here : b = true := agrees.mpr (.inl (Comparison.exact_of_dvd _ ⟨7200000, rfl⟩))
  exact ⟨q, text ▸ made, here ▸ holds⟩

/-- A clock that shows a whole second and is 1000500 microseconds ahead of UTC: a record of the very
instant of the literal is not equal to it. -/
theorem date_of_uneven_offset :
    ∃ t q, DateTime.read "2024-01-01T00:00:00+00:00:01.000500" = .ok t ∧
      t.toInstant = ⟨1704067198999500⟩ ∧
      Query.ofClause "modified = \"2024-01-01T00:00:00+00:00:01.000500\"" = (q, []) ∧
      q.holds {} (Record.ofEntry "/work/a" .file 0 33188 ⟨1704067198999500⟩ ⟨0⟩) = (false, []) := by
  have read : DateTime.read "2024-01-01T00:00:00+00:00:01.000500" =
      .ok ⟨⟨2024, 1, 1⟩, 0, 1000500⟩ := by
    decide
  obtain ⟨allowed, test, tested, answers⟩ := test?_date (a := .modified) rfl .eq read
  obtain ⟨q, made, holds⟩ := holds_spelled (by decide) allowed tested
    (answers _ {} (Record.ofEntry "/work/a" .file 0 33188 ⟨1704067198999500⟩ ⟨0⟩))
  have text : String.ofList (spelled .modified (.compare .eq)
      "2024-01-01T00:00:00+00:00:01.000500".toList) =
      "modified = \"2024-01-01T00:00:00+00:00:01.000500\"" := by
    decide
  exact ⟨_, q, read, by decide, text ▸ made, holds⟩

end Where

end FileQuery
