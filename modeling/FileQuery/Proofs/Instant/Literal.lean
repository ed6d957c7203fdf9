import FileQuery.Where.Predicate
import FileQuery.Proofs.Instant.Calendar
import FileQuery.Proofs.Text.Blank
import FileQuery.Proofs.Text.Integer
import Mathlib.Data.Bool.AllAny
import Mathlib.Data.List.GetD

/-! # Dates as they are written

The ISO 8601 text of a date and a time in UTC is read back as that date and time, with microseconds or
without (`read_iso`), so that a literal which shows an instant means it to the millisecond
(`Instant.Dated.dateOf?_iso`). -/
set_option autoImplicit false
namespace FileQuery.DateTime

open Text (Plain valuesOf padded)

/-! ## Digits -/

theorem takeDigits_plain {s : List Char} (plain : Plain 10 s) (r : List Char) :
    takeDigits s.length (s ++ r) = some (valuesOf s, r) := by
  induction s with
  | nil => rfl
  | cons c s ih =>
      have digit : c.isDigit = true := plain.isDigit le_rfl (by simp)
      rw [List.length_cons, List.cons_append, takeDigits, if_pos digit, ih plain.tail]
      rfl

theorem number_padded {width n : Nat} (short : n < 10 ^ width) (wide : 0 < width) (r : List Char) :
    number width ((padded width n).toList ++ r) = some (n, r) := by
  have taken := takeDigits_plain (Text.plain_padded width n) r
  rw [Text.length_padded short wide] at taken
  rw [number, taken, Option.map_some, Text.ofDigits_padded]

theorem exists_padded {width n : Nat} (short : n < 10 ^ width) (wide : 0 < width) :
    ∃ c r, (padded width n).toList = c :: r ∧ c.isDigit = true := by
  have count := Text.length_padded short wide
  have plain := Text.plain_padded width n
  cases text : (padded width n).toList with
  | nil =>
      rw [text, List.length_nil] at count
      omega
  | cons c r => exact ⟨c, r, rfl, (text ▸ plain).isDigit le_rfl (by simp)⟩

/-! ## The shape of the text -/

def dateChars (d : Date) : List Char :=
  (padded 4 d.year).toList ++
    '-' :: ((padded 2 d.month).toList ++ '-' :: (padded 2 d.day).toList)

/-- The characters of a time of day, with a fraction or without. -/
def clockChars (clock : Nat) : List Char :=
  (padded 2 (clock / 1000000 / 3600)).toList ++
    ':' :: ((padded 2 (clock / 1000000 / 60 % 60)).toList ++
      ':' :: ((padded 2 (clock / 1000000 % 60)).toList ++
        if clock % 1000000 = 0 then [] else '.' :: (padded 6 (clock % 1000000)).toList))

def utcChars : List Char := ['+', '0', '0', ':', '0', '0']

theorem toList_iso {t : DateTime} (utc : t.offset = 0) :
    t.iso.toList = dateChars t.date ++ 'T' :: (clockChars t.clock ++ utcChars) := by
  have offset : (offsetText t.offset).toList = utcChars := by
    rw [utc]
    decide
  simp only [iso]
  split
  · next none =>
      simp [isoSeconds, dateText, clockText, dateChars, clockChars, offset, none]
  · next some =>
      simp [dateText, clockText, dateChars, clockChars, fractionText, offset, some]

/-! ## Characters -/

/-- The characters that such texts are written with. -/
def IsLiteralChar (c : Char) : Prop := c.isDigit = true ∨ c ∈ ['-', 'T', ':', '.', '+']
  deriving Decidable

theorem IsLiteralChar.isBlank {c : Char} (known : IsLiteralChar c) : Text.isBlank c = false := by
  rcases known with digit | sign
  · exact Text.isBlank_of_isDigit digit
  · have none : ∀ c ∈ ['-', 'T', ':', '.', '+'], Text.isBlank c = false :=
      List.all_iff_forall_prop.mp (by decide)
    exact none c sign

theorem isLiteralChar_padded {width n : Nat} {c : Char} (member : c ∈ (padded width n).toList) :
    IsLiteralChar c :=
  .inl ((Text.plain_padded width n).isDigit le_rfl member)

theorem utf8Size_eq_one {c : Char} (known : IsLiteralChar c) : c.utf8Size = 1 := by
  rw [Char.utf8Size_eq_one_iff, UInt32.le_iff_toNat_le]
  rcases known with digit | sign
  · have range := Text.isDigit_iff.mp digit
    exact Nat.le_trans (Nat.le_of_lt_succ range.2) (by decide)
  · have small : ∀ c ∈ ['-', 'T', ':', '.', '+'], c.val.toNat ≤ 127 :=
      List.all_iff_forall_prop.mp (by decide)
    exact small c sign

theorem widened_eq_self {s : List Char} (known : ∀ c ∈ s, IsLiteralChar c) : widened s = s := by
  induction s with
  | nil => rfl
  | cons c r ih =>
      rw [widened, List.flatMap_cons, utf8Size_eq_one (known c (by simp)), ← widened,
        ih fun d member => known d (List.mem_cons_of_mem _ member)]
      rfl

theorem digit_or_sign_of_mem_clockChars {clock : Nat} {c : Char} (member : c ∈ clockChars clock) :
    c.isDigit = true ∨ c ∈ [':', '.'] := by
  have digit {width n : Nat} (member : c ∈ (padded width n).toList) : c.isDigit = true :=
    (Text.plain_padded width n).isDigit le_rfl member
  simp only [clockChars, List.mem_append, List.mem_cons] at member
  rcases member with hour | rfl | minute | rfl | second | fraction
  · exact .inl (digit hour)
  · exact .inr (by decide)
  · exact .inl (digit minute)
  · exact .inr (by decide)
  · exact .inl (digit second)
  · split at fraction
    · cases fraction
    · rcases List.mem_cons.mp fraction with rfl | micros
      · exact .inr (by decide)
      · exact .inl (digit micros)

/-! ## Reading the date -/

section Date
variable {d : Date} (valid : d.Valid) (r : List Char)
include valid

theorem month_lt : d.month < 10 ^ 2 := by
  have month := valid.month
  omega

theorem day_lt : d.day < 10 ^ 2 := by
  have most := Date.daysInMonth_le d.year d.month
  have day := valid.day
  omega

theorem year_lt : d.year < 10 ^ 4 := by
  have year := valid.year
  omega

theorem length_dateChars : (dateChars d).length = 10 := by
  simp only [dateChars, List.length_append, List.length_cons,
    Text.length_padded (year_lt valid) (by decide), Text.length_padded (month_lt valid) (by decide),
    Text.length_padded (day_lt valid) (by decide)]

theorem readDate_dateChars (stop : Nat) :
    readDate stop (dateChars d ++ r) = some (.civil d.year d.month d.day) := by
  have year := number_padded (year_lt valid) (by decide)
    ('-' :: ((padded 2 d.month).toList ++ '-' :: ((padded 2 d.day).toList ++ r)))
  have month := number_padded (month_lt valid) (by decide) ('-' :: ((padded 2 d.day).toList ++ r))
  have day := number_padded (day_lt valid) (by decide) r
  have text : dateChars d ++ r = (padded 4 d.year).toList ++
      ('-' :: ((padded 2 d.month).toList ++ '-' :: ((padded 2 d.day).toList ++ r))) := by
    simp [dateChars]
  have digit : (((padded 2 d.month).toList ++ '-' :: ((padded 2 d.day).toList ++ r)).head? ==
      some 'W') = false := by
    obtain ⟨c, s, starts, isDigit⟩ := exists_padded (month_lt valid) (by decide)
    have other : c ≠ 'W' := Text.ne_of_isDigit isDigit (by decide)
    simp [starts, other]
  rw [readDate, text, year]
  simp only [Option.bind_eq_bind, Option.bind_some, List.head?_cons, beq_self_eq_true, if_true,
    List.tail_cons, digit, Bool.false_eq_true, if_false, month, day]
  rfl

theorem separatorAt_dateChars : separatorAt (dateChars d ++ 'T' :: r) = some 10 := by
  obtain ⟨c, s, starts, isDigit⟩ := exists_padded (month_lt valid) (by decide)
  have other : c ≠ 'W' := Text.ne_of_isDigit isDigit (by decide)
  have count := length_dateChars valid
  have year := Text.length_padded (year_lt valid) (by decide)
  have text : dateChars d ++ 'T' :: r = (padded 4 d.year).toList ++
      '-' :: c :: (s ++ '-' :: ((padded 2 d.day).toList ++ 'T' :: r)) := by
    simp [dateChars, starts]
  have dash : (dateChars d ++ 'T' :: r).getD 4 '\x00' = '-' := by
    rw [text, List.getD_append_right _ _ _ _ year.le, year]
    rfl
  have digit : (dateChars d ++ 'T' :: r).getD 5 '\x00' = c := by
    rw [text, List.getD_append_right _ _ _ _ (by omega), year]
    rfl
  have length : (dateChars d ++ 'T' :: r).length ≠ 7 := by
    rw [List.length_append, List.length_cons, count]
    omega
  simp only [separatorAt, if_neg length, dash, digit, if_true, if_neg other]

end Date

/-! ## Reading the time -/

theorem readClock_colon (followed : Bool) (k : Nat) {colon : Option Bool}
    (allowed : colon.getD true = true) {n : Nat} (short : n < 10 ^ 2) {r : List Char}
    (more : r ≠ []) :
    readClock followed (k + 1) colon ((padded 2 n).toList ++ ':' :: r) =
      (readClock followed k (some true) r).map (Clock.cons n) := by
  obtain ⟨c, r, rfl⟩ := List.exists_cons_of_ne_nil more
  have colons : colon.getD ((':' :: c :: r).head? == some ':') = true := by
    rw [← allowed]
    rfl
  rw [readClock, number_padded short (by decide)]
  simp only [Option.bind_eq_bind, Option.bind_some, colons, Bool.true_and, decide_true, if_true]
  cases readClock followed k (some true) (c :: r) <;> rfl

theorem readFraction_padded (followed : Bool) {n : Nat} (short : n < 10 ^ 6) :
    readFraction followed (padded 6 n).toList = some ⟨[], n, followed⟩ := by
  have count := Text.length_padded short (by decide)
  have taken := takeDigits_plain (Text.plain_padded 6 n) []
  rw [count, List.append_nil] at taken
  rw [readFraction, count]
  simp only [Nat.min_self, taken, Option.bind_eq_bind, Option.bind_some, Text.ofDigits_padded]
  simp [remains]

theorem readClock_seconds (followed : Bool) {n micros : Nat} (short : n < 10 ^ 2)
    (fraction : micros < 10 ^ 6) :
    readClock followed 1 (some true) ((padded 2 n).toList ++
      if micros = 0 then [] else '.' :: (padded 6 micros).toList) =
        some ⟨[n], micros, followed⟩ := by
  rw [readClock, number_padded short (by decide)]
  split
  · next none =>
      subst none
      rfl
  · next some =>
      obtain ⟨c, r, text, -⟩ := exists_padded fraction (by decide)
      have read := readFraction_padded followed fraction
      rw [text] at read ⊢
      simp [read, Clock.cons]

def Clock.ofMicros (clock : Nat) (followed : Bool) : Clock :=
  ⟨[clock / 1000000 / 3600, clock / 1000000 / 60 % 60, clock / 1000000 % 60], clock % 1000000,
    followed⟩

theorem readClock_clockChars (followed : Bool) {clock : Nat} (within : clock < 86400000000) :
    readClock followed 3 none (clockChars clock) = some (.ofMicros clock followed) := by
  rw [clockChars, readClock_colon _ _ rfl (by omega) (by simp),
    readClock_colon _ _ rfl (by omega) ?some, readClock_seconds _ (by omega) (by omega)]
  · rfl
  · have short : clock / 1000000 % 60 < 10 ^ 2 := by omega
    obtain ⟨c, r, text, -⟩ := exists_padded short (by decide)
    simp [text]

theorem readTime_clockChars {clock : Nat} (within : clock < 86400000000) :
    readTime (clockChars clock ++ utcChars) = some (.ofMicros clock true, some 0) := by
  have own : ∀ c ∈ clockChars clock, (!startsOffset c) = true := by
    intro c member
    rcases digit_or_sign_of_mem_clockChars member with digit | sign
    · have plus : c ≠ '+' := Text.ne_of_isDigit digit (by decide)
      have minus : c ≠ '-' := Text.ne_of_isDigit digit (by decide)
      have zulu : c ≠ 'Z' := Text.ne_of_isDigit digit (by decide)
      simp [startsOffset, plus, minus, zulu]
    · have none : ∀ c ∈ [':', '.'], (!startsOffset c) = true :=
        List.all_iff_forall_prop.mp (by decide)
      exact none c sign
  have offset : readClock false 3 none ['0', '0', ':', '0', '0'] = some ⟨[0, 0], 0, false⟩ := by rfl
  rw [readTime, utcChars, List.takeWhile_append_of_pos own, List.dropWhile_append_of_pos own,
    List.takeWhile_cons_of_neg (by decide), List.dropWhile_cons_of_neg (by decide), List.append_nil]
  simp only [readClock_clockChars true within, offset]
  rfl

theorem resolveClock_ofMicros {clock : Nat} (within : clock < 86400000000) (followed : Bool) :
    resolveClock (.ofMicros clock followed) = .ok clock := by
  have hour : ¬ 23 < clock / 1000000 / 3600 := by omega
  have minute : ¬ 59 < clock / 1000000 / 60 % 60 := by omega
  have second : ¬ 59 < clock / 1000000 % 60 := by omega
  simp only [resolveClock, Clock.ofMicros, Clock.hour, Clock.minute, Clock.second, Clock.seconds,
    List.getD_cons_zero, List.getD_cons_succ, if_neg hour, if_neg minute, if_neg second]
  congr 1
  omega

theorem resolveDate_civil {d : Date} (valid : d.Valid) :
    resolveDate (.civil d.year d.month d.day) = .ok d := by
  obtain ⟨year, month, day⟩ := valid
  rw [resolveDate, if_neg (by omega), if_neg (by omega), if_neg (by omega)]

/-! ## The text read back -/

section
variable {t : DateTime} (utc : t.offset = 0)
include utc

theorem isLiteralChar_iso : ∀ c ∈ t.iso.toList, IsLiteralChar c := by
  intro c member
  rw [toList_iso utc] at member
  simp only [dateChars, List.mem_append, List.mem_cons] at member
  rcases member with (year | rfl | month | rfl | day) | rfl | clock | offset
  · exact isLiteralChar_padded year
  · exact .inr (by decide)
  · exact isLiteralChar_padded month
  · exact .inr (by decide)
  · exact isLiteralChar_padded day
  · exact .inr (by decide)
  · exact (digit_or_sign_of_mem_clockChars clock).imp id fun sign =>
      List.all_iff_forall_prop.mp (by decide) c sign
  · have member : c ∈ utcChars := by simpa using offset
    exact List.all_iff_forall_prop.mp (by decide) c member

theorem trim_iso : Text.trim t.iso.toList = t.iso.toList := by
  have kept : ∀ c ∈ t.iso.toList, Text.isBlank c = false := fun c member =>
    (isLiteralChar_iso utc c member).isBlank
  exact Text.trim_eq_self_iff.mpr ⟨fun c first => kept c (List.mem_of_mem_head? first),
    fun c last => kept c (List.mem_of_mem_getLast? last)⟩

variable (valid : t.date.Valid) (within : t.clock < 86400000000)
include valid within

theorem readFields_iso : readFields t.iso.toList =
    some (.civil t.date.year t.date.month t.date.day,
      some (.ofMicros t.clock true, some 0)) := by
  have date := length_dateChars valid
  have text := toList_iso utc
  have stop := separatorAt_dateChars valid (clockChars t.clock ++ utcChars)
  have read := readDate_dateChars valid ('T' :: (clockChars t.clock ++ utcChars)) 10
  have mark : t.iso.toList.getD 10 'T' = 'T' := by
    rw [text, List.getD_append_right _ _ _ _ date.le, date]
    rfl
  have rest : t.iso.toList.drop (10 + 'T'.utf8Size) =
      clockChars t.clock ++ utcChars := by
    have skip : 10 + 'T'.utf8Size = (dateChars t.date).length + 1 := by rw [date]; rfl
    rw [text, skip, List.drop_append]
    simp
  rw [← text] at stop read
  have count : 10 < t.iso.toList.length := by
    rw [text, List.length_append, date, List.length_cons]
    omega
  rw [readFields, widened_eq_self (isLiteralChar_iso utc)]
  simp only [if_neg (by omega : ¬ t.iso.toList.length < 7), Option.bind_eq_bind, stop,
    Option.bind_some, read, if_pos count, mark, rest, readTime_clockChars within]
  rfl

theorem read_iso : read t.iso = .ok t := by
  have date := resolveDate_civil valid
  have clock := resolveClock_ofMicros within true
  have small : ¬ (Instant.microsPerDay : Int) ≤ (0 : Int).natAbs := by decide
  rw [read, trim_iso utc, readFields_iso utc valid within]
  simp only [weekExists, Bool.not_true, Bool.false_eq_true, if_false, Option.bind_some,
    Option.getD_some, if_neg small, date, clock]
  cases t
  cases utc
  rfl

end

end FileQuery.DateTime

/-! ## Instants as literals -/

namespace FileQuery.Instant

theorem clock_ofInstant (i : Instant) : (DateTime.ofInstant i).clock < 86400000000 := by
  simp only [DateTime.ofInstant, microsPerDay]
  omega

theorem Dated.date {i : Instant} (dated : i.Dated) : (DateTime.ofInstant i).date.Valid ∧
    ((DateTime.ofInstant i).date.dayNumber : Int) = i.micros / microsPerDay + epochDay := by
  have range : 1 ≤ i.micros / microsPerDay + epochDay ∧
      i.micros / microsPerDay + epochDay < Date.dayLimit := by
    obtain ⟨first, last⟩ := dated
    simp only [microsPerDay, epochDay, Date.dayLimit]
    omega
  obtain ⟨day, positive⟩ := Int.eq_ofNat_of_zero_le (Int.le_trans Int.one_nonneg range.1)
  obtain ⟨valid, number⟩ := Date.ofDayNumber_spec (n := day) (by omega) (by omega)
  have found : (DateTime.ofInstant i).date = Date.ofDayNumber day := by
    simp only [DateTime.ofInstant, positive, Int.toNat_natCast]
  rw [found, number, positive]
  exact ⟨valid, rfl⟩

theorem Dated.dateOf?_iso {i : Instant} (dated : i.Dated) :
    Where.Condition.dateOf? i.iso = some i.truncateToMillis := by
  obtain ⟨valid, number⟩ := dated.date
  rw [Where.Condition.dateOf?, iso, DateTime.read_iso rfl valid (clock_ofInstant i)]
  simp only [DateTime.truncateToMillis, DateTime.toInstant, number, truncateToMillis]
  simp only [DateTime.ofInstant, microsPerDay]
  congr 2
  omega

end FileQuery.Instant
