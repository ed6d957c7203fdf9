import FileQuery.Instant.Basic
import FileQuery.Text.Blank
import FileQuery.Text.Quoted

/-! Date literals. A date is `2024-01-31`, `20240131`, or a week date such as `2024-W05-3`,
`2024W053` or `2024-W05`; any one character may stand between the date and a time. A time has hours,
minutes and seconds, with colons or without, and a decimal fraction cut to microseconds; `Z` or a
signed offset may follow. A literal without an offset is in UTC.

Time fields are read from the text with every character repeated as often as it has bytes in UTF-8:
one byte may stand unread before an offset, a longer character may not. -/
set_option autoImplicit false
namespace FileQuery

inductive DateError where
  | malformed (text : String)
  | yearOutOfRange (year : Int)
  | monthOutOfRange
  | dayOutOfRange
  | hourOutOfRange
  | minuteOutOfRange
  | secondOutOfRange
  | offsetOutOfRange (micros : Int)
  deriving DecidableEq, Repr

namespace DateError

def spanText (micros : Int) : String :=
  let days := micros / 86400000000
  let rest := (micros % 86400000000).toNat
  let parts := [("days", days), ("seconds", (rest / 1000000 : Nat)),
    ("microseconds", (rest % 1000000 : Nat))].filter (fun p => p.2 != 0)
  let shown := parts.map fun p => p.1 ++ "=" ++ toString p.2
  "datetime.timedelta(" ++ (if shown.isEmpty then "0" else String.intercalate ", " shown) ++ ")"

def message : DateError → String
  | malformed text => "Invalid isoformat string: " ++ Text.quoted text
  | yearOutOfRange year => s!"year {year} is out of range"
  | monthOutOfRange => "month must be in 1..12"
  | dayOutOfRange => "day is out of range for month"
  | hourOutOfRange => "hour must be in 0..23"
  | minuteOutOfRange => "minute must be in 0..59"
  | secondOutOfRange => "second must be in 0..59"
  | offsetOutOfRange micros =>
    "offset must be a timedelta strictly between -timedelta(hours=24) and " ++
      "timedelta(hours=24), not " ++ spanText micros ++ "."

end DateError

namespace DateTime

def takeDigits : Nat → List Char → Option (List Nat × List Char)
  | 0, s => some ([], s)
  | _ + 1, [] => none
  | n + 1, c :: r =>
    if c.isDigit then (takeDigits n r).map fun p => ((c.toNat - 48) :: p.1, p.2) else none

def number (n : Nat) (s : List Char) : Option (Nat × List Char) :=
  (takeDigits n s).map fun p => (Text.ofDigits 10 p.1, p.2)

/-- Where the date ends and the separator stands, told from the shape of the date. -/
def separatorAt (s : List Char) : Option Nat :=
  let n := s.length
  let char (i : Nat) : Char := s.getD i '\x00'
  if n = 7 then some 7
  else if char 4 = '-' then
    if char 5 = 'W' then
      if n < 8 then none
      else if 8 < n ∧ char 8 = '-' then
        if n = 9 then none
        else if 10 < n ∧ (char 10).isDigit then some 8
        else some 10
      else some 8
    else some 10
  else if char 4 = 'W' then
    let stop := 7 + ((s.drop 7).takeWhile Char.isDigit).length
    if stop < 9 then some stop
    else if stop % 2 = 0 then some 7 else some 8
  else some 8

inductive DateFields where
  | civil (year month day : Nat)
  | week (year week weekday : Nat)

def readDate (stop : Nat) (s : List Char) : Option DateFields := do
  let (year, r) ← number 4 s
  let dashed := r.head? == some '-'
  let r := if dashed then r.tail else r
  if r.head? == some 'W' then
    let (week, r) ← number 2 r.tail
    if s.length - r.length < stop then
      let r ← if dashed then (if r.head? == some '-' then some r.tail else none) else some r
      let (day, _) ← number 1 r
      return .week year week day
    else return .week year week 1
  else
    let (month, r) ← number 2 r
    let r ← if dashed then (if r.head? == some '-' then some r.tail else none) else some r
    let (day, _) ← number 2 r
    return .civil year month day

structure Clock where
  fields : List Nat
  micros : Nat
  leftOver : Bool

namespace Clock

def hour (c : Clock) : Nat := c.fields.getD 0 0

def minute (c : Clock) : Nat := c.fields.getD 1 0

def second (c : Clock) : Nat := c.fields.getD 2 0

def seconds (c : Clock) : Nat := c.hour * 3600 + c.minute * 60 + c.second

def cons (n : Nat) (c : Clock) : Clock := { c with fields := n :: c.fields }

end Clock

/-- Whether a character stands at the head, a NUL counting as none. -/
def remains (followed : Bool) : List Char → Bool
  | [] => followed
  | c :: _ => c != '\x00'

/-- A fraction of a second: up to six digits count, more are skipped. -/
def readFraction (followed : Bool) (s : List Char) : Option Clock := do
  let k := min s.length 6
  let (ds, r) ← takeDigits k s
  return ⟨[], Text.ofDigits 10 ds * Nat.pow 10 (6 - k), remains followed (r.dropWhile Char.isDigit)⟩

def readClock (followed : Bool) : Nat → Option Bool → List Char → Option Clock
  | 0, _, s => readFraction followed s
  | k + 1, colon, s => do
    let (n, r) ← number 2 s
    let colon := colon.getD (r.head? == some ':')
    match r with
    | [] | [_] => return ⟨[n], 0, remains followed r⟩
    | c :: rest =>
      if colon && c = ':' then return (← readClock followed k (some colon) rest).cons n
      else if c = '.' || c = ',' then return (← readFraction followed rest).cons n
      else if !colon then return (← readClock followed k (some colon) (c :: rest)).cons n
      else none

def startsOffset (c : Char) : Bool := c == '+' || c == '-' || c == 'Z'

/-- A time of day and its offset in microseconds, if it has one. An offset of no whole second is no
offset at all. -/
def readTime (s : List Char) : Option (Clock × Option Int) :=
  let own := s.takeWhile (fun c => !startsOffset c)
  match s.dropWhile (fun c => !startsOffset c) with
  | [] => do
    let clock ← readClock false 3 none own
    if clock.leftOver then none else return (clock, none)
  | sign :: r => do
    let clock ← readClock true 3 none own
    if sign = 'Z' then
      if remains false r then none else return (clock, some 0)
    else
      let z ← readClock false 3 none r
      if z.leftOver then none
      else
        let micros : Int := if z.seconds = 0 then 0 else z.seconds * 1000000 + z.micros
        return (clock, some (if sign = '-' then -micros else micros))

def widened (s : List Char) : List Char := s.flatMap fun c => List.replicate c.utf8Size c

def readFields (text : List Char) : Option (DateFields × Option (Clock × Option Int)) := do
  let s := widened text
  if s.length < 7 then none
  let stop ← separatorAt s
  let date ← readDate stop s
  if stop < s.length then
    let skip := (s.getD stop 'T').utf8Size
    return (date, some (← readTime (s.drop (stop + skip))))
  else return (date, none)

def resolveDate : DateFields → Except DateError Date
  | .week y w d =>
    if y < 1 then .error .monthOutOfRange
    else
      let date := Date.ofDayNumber (Date.firstMonday y + (w - 1) * 7 + d - 1).toNat
      if date.year ≤ 9999 then .ok date else .error (.yearOutOfRange date.year)
  | .civil y m d =>
    if y < 1 ∨ 9999 < y then .error (.yearOutOfRange y)
    else if m < 1 ∨ 12 < m then .error .monthOutOfRange
    else if d < 1 ∨ Date.daysInMonth y m < d then .error .dayOutOfRange
    else .ok ⟨y, m, d⟩

/-- Weeks and weekdays that no year has make a literal malformed. -/
def weekExists : DateFields → Bool
  | .week y w d => Date.hasWeek y w && decide (1 ≤ d) && decide (d ≤ 7)
  | .civil _ _ _ => true

def resolveClock (c : Clock) : Except DateError Nat :=
  if 23 < c.hour then .error .hourOutOfRange
  else if 59 < c.minute then .error .minuteOutOfRange
  else if 59 < c.second then .error .secondOutOfRange
  else .ok (c.seconds * 1000000 + c.micros)

def read (text : String) : Except DateError DateTime := do
  let s := Text.trim text.toList
  match readFields s with
  | none => throw (.malformed (String.ofList s))
  | some (fields, time) =>
    if !weekExists fields then throw (.malformed (String.ofList s))
    let offset := (time.bind (·.2)).getD 0
    if (Instant.microsPerDay : Int) ≤ offset.natAbs then throw (.offsetOutOfRange offset)
    let date ← resolveDate fields
    let clock ← match time with
      | none => pure 0
      | some (c, _) => resolveClock c
    return { date, clock, offset }

end DateTime

end FileQuery
