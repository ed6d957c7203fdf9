import FileQuery.Number.Double
import FileQuery.Text.Integer

/-! The calendar of years 1 to 9999 with the leap years of the Gregorian rule, counted in days from
the first of January of year 1, which is day 1. -/
set_option autoImplicit false
namespace FileQuery

structure Date where
  year : Nat
  month : Nat
  day : Nat
  deriving DecidableEq, Repr

namespace Date

def isLeap (y : Nat) : Bool := y % 4 == 0 && (y % 100 != 0 || y % 400 == 0)

def daysInMonth (y m : Nat) : Nat :=
  match m with
  | 2 => if isLeap y then 29 else 28
  | 4 | 6 | 9 | 11 => 30
  | _ => 31

def daysBeforeYear (y : Nat) : Nat :=
  let p := y - 1
  365 * p + p / 4 - p / 100 + p / 400

def daysBeforeMonth (y m : Nat) : Nat :=
  ((List.range (m - 1)).map fun k => daysInMonth y (k + 1)).foldr (· + ·) 0

def dayNumber (d : Date) : Nat :=
  daysBeforeYear d.year + daysBeforeMonth d.year d.month + d.day

/-- The year that holds the day which is `n` days after the first one. Periods of 400, 100, 4 and
1 years are taken off in turn; the last day of a period of 400 or 4 years stays in its last year. -/
def yearOf (n : Nat) : Nat :=
  let n400 := n / 146097
  let r400 := n % 146097
  let n100 := min (r400 / 36524) 3
  let r100 := r400 - 36524 * n100
  let n4 := r100 / 1461
  let r4 := r100 % 1461
  let n1 := min (r4 / 365) 3
  400 * n400 + 100 * n100 + 4 * n4 + n1 + 1

def monthOf (y : Nat) : Nat → Nat → Nat → Nat × Nat
  | 0, m, n => (m, n + 1)
  | fuel + 1, m, n =>
    if n < daysInMonth y m then (m, n + 1) else monthOf y fuel (m + 1) (n - daysInMonth y m)

def ofDayNumber (n : Nat) : Date :=
  let y := yearOf (n - 1)
  let (m, d) := monthOf y 11 1 (n - 1 - daysBeforeYear y)
  ⟨y, m, d⟩

def weekday (d : Date) : Nat := (d.dayNumber + 6) % 7

/-- The day number of the Monday of a year's first week, which is the week of its first Thursday. It
may lie before day 1. -/
def firstMonday (y : Nat) : Int :=
  let w := weekday ⟨y, 1, 1⟩
  let monday : Int := (dayNumber ⟨y, 1, 1⟩ : Int) - w
  if 3 < w then monday + 7 else monday

def hasWeek (y week : Nat) : Bool :=
  let w := weekday ⟨y, 1, 1⟩
  decide (1 ≤ week) &&
    (decide (week ≤ 52) || (week == 53 && (w == 3 || (w == 2 && isLeap y))))

end Date

/-! Instants, counted in microseconds from the start of 1970 in UTC, and their ISO 8601 text. -/

structure Instant where
  micros : Int
  deriving DecidableEq, Repr

namespace Instant

def microsPerDay : Nat := 86400000000

def epochDay : Nat := 719163

def truncateToMillis (i : Instant) : Instant := ⟨i.micros / 1000 * 1000⟩

end Instant

structure DateTime where
  date : Date
  clock : Nat
  offset : Int
  deriving DecidableEq, Repr

namespace DateTime

def ofInstant (i : Instant) : DateTime :=
  let day := i.micros / Instant.microsPerDay
  { date := Date.ofDayNumber (day + Instant.epochDay).toNat
    clock := (i.micros % Instant.microsPerDay).toNat
    offset := 0 }

def toInstant (t : DateTime) : Instant :=
  ⟨((t.date.dayNumber : Int) - Instant.epochDay) * Instant.microsPerDay + t.clock - t.offset⟩

def truncateToMillis (t : DateTime) : DateTime := { t with clock := t.clock / 1000 * 1000 }

def dateText (d : Date) : String :=
  Text.padded 4 d.year ++ "-" ++ Text.padded 2 d.month ++ "-" ++ Text.padded 2 d.day

def clockText (seconds : Nat) : String :=
  Text.padded 2 (seconds / 3600) ++ ":" ++ Text.padded 2 (seconds / 60 % 60) ++ ":" ++
    Text.padded 2 (seconds % 60)

def fractionText (micros : Nat) : String := "." ++ Text.padded 6 micros

/-- An offset in hours and minutes, with seconds and a fraction only where they are not zero. -/
def offsetText (offset : Int) : String :=
  let n := offset.natAbs
  let seconds := n / 1000000
  let micros := n % 1000000
  let clock :=
    if micros ≠ 0 then clockText seconds ++ fractionText micros
    else if seconds % 60 ≠ 0 then clockText seconds
    else Text.padded 2 (seconds / 3600) ++ ":" ++ Text.padded 2 (seconds / 60 % 60)
  (if offset < 0 then "-" else "+") ++ clock

def isoSeconds (t : DateTime) : String :=
  dateText t.date ++ "T" ++ clockText (t.clock / 1000000) ++ offsetText t.offset

def iso (t : DateTime) : String :=
  let micros := t.clock % 1000000
  if micros = 0 then t.isoSeconds
  else dateText t.date ++ "T" ++ clockText (t.clock / 1000000) ++ fractionText micros ++
    offsetText t.offset

end DateTime

namespace Instant

def iso (i : Instant) : String := (DateTime.ofInstant i).iso

def isoSeconds (i : Instant) : String := (DateTime.ofInstant i).isoSeconds

def isoDate (i : Instant) : String := DateTime.dateText (DateTime.ofInstant i).date

end Instant

end FileQuery

/-! Instants from a count of seconds that may have a fraction. The count passes through a double:
its fraction times a million is rounded to a double and then to a whole number of microseconds. -/

namespace FileQuery.Instant

inductive StampError where
  | beyondClock
  | beyondYears
  | yearOutOfRange (year : Int)
  deriving DecidableEq, Repr

namespace StampError

def message : StampError → String
  | beyondClock => "timestamp out of range for platform time_t"
  | beyondYears => "[Errno 75] Value too large for defined data type"
  | yearOutOfRange year => s!"year {year} is out of range"

def exceptionName : StampError → String
  | beyondClock => "OverflowError"
  | beyondYears => "OSError"
  | yearOutOfRange _ => "ValueError"

end StampError

/-- The year that holds a day, for days of any sign, by shifting whole periods of 400 years. -/
def yearOfDay (day : Int) : Int :=
  let period := day / 146097
  400 * period + Date.yearOf (day % 146097).toNat

def ofSeconds (seconds : Int) (micros : Nat) : Except StampError Instant :=
  if seconds < -Int.pow 2 63 ∨ Int.pow 2 63 ≤ seconds then .error .beyondClock
  else if seconds < -67768040609740800 ∨ 67767976233532799 < seconds then .error .beyondYears
  else
    let year := yearOfDay (seconds / 86400 + epochDay - 1)
    if year < 1 ∨ 9999 < year then .error (.yearOutOfRange year)
    else .ok ⟨seconds * 1000000 + micros⟩

def ofDecimalSeconds (mantissa : Int) (places : Nat) : Except StampError Instant :=
  let d := Number.toDouble mantissa.natAbs (Nat.pow 10 places)
  let whole : Int := d.floor
  let micros := (d.fraction.timesRounded 1000000).round
  if mantissa < 0 then
    if micros = 0 then ofSeconds (-whole) 0
    else if 1000000 ≤ micros then ofSeconds (-whole - 1) 0
    else ofSeconds (-whole - 1) (1000000 - micros)
  else if 1000000 ≤ micros then ofSeconds (whole + 1) (micros - 1000000)
  else ofSeconds whole micros

/-- A count of seconds as it is written: `mantissa / 10 ^ places`. -/
structure Seconds where
  mantissa : Int
  places : Nat
  deriving DecidableEq, Repr

namespace Seconds

def ofInstant (i : Instant) : Seconds := ⟨i.micros, 6⟩

def instant (s : Seconds) : Except StampError Instant := ofDecimalSeconds s.mantissa s.places

end Seconds

end FileQuery.Instant
