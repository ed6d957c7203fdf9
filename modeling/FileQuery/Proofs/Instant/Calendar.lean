import FileQuery.Instant.Basic
import Mathlib.Order.Monotone.Basic
import Mathlib.Tactic.ByContra

/-! # Dates and day numbers

The date that is found for a day number of the years 1 to 9999 is one of the calendar, and has that
number (`ofDayNumber_spec`). -/
set_option autoImplicit false
namespace FileQuery.Date

structure Valid (d : Date) : Prop where
  year : 1 ≤ d.year ∧ d.year ≤ 9999
  month : 1 ≤ d.month ∧ d.month ≤ 12
  day : 1 ≤ d.day ∧ d.day ≤ daysInMonth d.year d.month

/-! ## Years -/

def daysInYear (y : Nat) : Nat := if isLeap y then 366 else 365

theorem isLeap_iff (y : Nat) : isLeap y = true ↔ y % 4 = 0 ∧ (y % 100 ≠ 0 ∨ y % 400 = 0) := by
  simp [isLeap]

/-- A year is some periods of 400, of 100, of 4 and of 1 years after the first one, and a day that is
left over in it; the last one only of a leap year is the 366th. -/
theorem yearOf_parts (n : Nat) : ∃ a b c e rest,
    yearOf n = 400 * a + 100 * b + 4 * c + e + 1 ∧
      n = 146097 * a + 36524 * b + 1461 * c + 365 * e + rest ∧
      b ≤ 3 ∧ c ≤ 24 ∧ e ≤ 3 ∧ rest ≤ 365 ∧ (rest = 365 → e = 3 ∧ (c = 24 → b = 3)) := by
  rw [yearOf]
  have whole := Nat.div_add_mod n 146097
  have within := Nat.mod_lt n (by decide : 146097 > 0)
  generalize n / 146097 = a at whole
  generalize n % 146097 = r400 at whole within
  obtain ⟨b, hundreds⟩ : ∃ b, b = min (r400 / 36524) 3 := ⟨_, rfl⟩
  obtain ⟨r100, left⟩ : ∃ r, r = r400 - 36524 * b := ⟨_, rfl⟩
  have hundred : b ≤ 3 ∧ r400 = 36524 * b + r100 ∧ (r100 ≤ 36523 ∨ b = 3 ∧ r100 ≤ 36524) := by
    omega
  obtain ⟨c, fours⟩ : ∃ c, c = r100 / 1461 := ⟨_, rfl⟩
  obtain ⟨r4, left4⟩ : ∃ r, r = r100 % 1461 := ⟨_, rfl⟩
  have four : c ≤ 24 ∧ r100 = 1461 * c + r4 ∧ r4 ≤ 1460 ∧ (r4 = 1460 → c = 24 → b = 3) := by
    omega
  obtain ⟨e, ones⟩ : ∃ e, e = min (r4 / 365) 3 := ⟨_, rfl⟩
  refine ⟨a, b, c, e, r4 - 365 * e, ?_, ?_⟩
  · rw [ones, left4, fours, left, hundreds]
  · omega

theorem daysBeforeYear_parts {a b c e : Nat} (hundreds : b ≤ 3) (fours : c ≤ 24) (ones : e ≤ 3) :
    daysBeforeYear (400 * a + 100 * b + 4 * c + e + 1) =
      146097 * a + 36524 * b + 1461 * c + 365 * e := by
  rw [daysBeforeYear]
  omega

theorem daysBeforeYear_mono : Monotone daysBeforeYear :=
  monotone_nat_of_le_succ fun y => by
    simp only [daysBeforeYear]
    omega

theorem yearOf_spec (n : Nat) : 1 ≤ yearOf n ∧ daysBeforeYear (yearOf n) ≤ n ∧
    n < daysBeforeYear (yearOf n) + daysInYear (yearOf n) := by
  obtain ⟨a, b, c, e, rest, year, parts, hundreds, fours, ones, within, last⟩ := yearOf_parts n
  rw [year, daysBeforeYear_parts hundreds fours ones, daysInYear]
  refine ⟨by omega, by omega, ?_⟩
  split
  · omega
  · next common =>
      rw [isLeap_iff] at common
      omega

/-! ## Months -/

theorem daysBeforeMonth_succ (y : Nat) {m : Nat} (some : 1 ≤ m) :
    daysBeforeMonth y (m + 1) = daysBeforeMonth y m + daysInMonth y m := by
  obtain ⟨k, rfl⟩ := Nat.exists_eq_add_of_le' some
  have sum (l : List Nat) (d : Nat) : (l ++ [d]).foldr (· + ·) 0 = l.foldr (· + ·) 0 + d := by
    induction l with
    | nil => simp
    | cons x l ih => rw [List.cons_append, List.foldr_cons, List.foldr_cons, ih, Nat.add_assoc]
  rw [daysBeforeMonth, daysBeforeMonth, Nat.add_sub_cancel, Nat.add_sub_cancel, List.range_succ,
    List.map_append, List.map_singleton, sum]

theorem daysInMonth_le (y m : Nat) : daysInMonth y m ≤ 31 := by
  unfold daysInMonth
  split
  · split <;> decide
  all_goals decide

theorem daysBeforeMonth_end (y : Nat) : daysBeforeMonth y 13 = daysInYear y := by
  cases leap : isLeap y <;>
    simp [daysBeforeMonth, daysInYear, daysInMonth, leap, List.range_succ]

/-- A day lies in the month that is found for it, from a month on after which it lies. -/
theorem monthOf_spec (y : Nat) : ∀ (fuel m n : Nat), m + fuel = 12 → 1 ≤ m →
    daysBeforeMonth y m + n < daysInYear y →
    m ≤ (monthOf y fuel m n).1 ∧ (monthOf y fuel m n).1 ≤ 12 ∧
      1 ≤ (monthOf y fuel m n).2 ∧
      (monthOf y fuel m n).2 ≤ daysInMonth y (monthOf y fuel m n).1 ∧
      daysBeforeMonth y (monthOf y fuel m n).1 + (monthOf y fuel m n).2 =
        daysBeforeMonth y m + n + 1 := by
  intro fuel
  induction fuel with
  | zero =>
      intro m n last some within
      obtain rfl : m = 12 := last
      have whole := daysBeforeMonth_end y
      rw [daysBeforeMonth_succ y (by decide : 1 ≤ 12)] at whole
      simp only [monthOf]
      omega
  | succ fuel ih =>
      intro m n months some within
      rw [monthOf]
      split
      · simp only
        omega
      · have next := daysBeforeMonth_succ y some
        have rest := ih (m + 1) (n - daysInMonth y m) (by omega) (by omega) (by omega)
        omega

/-! ## Dates -/

/-- The day number after the last day of the year 9999. -/
def dayLimit : Nat := 3652060

theorem ofDayNumber_spec {n : Nat} (some : 1 ≤ n) (within : n < dayLimit) :
    (ofDayNumber n).Valid ∧ (ofDayNumber n).dayNumber = n := by
  obtain ⟨first, before, after⟩ := yearOf_spec (n - 1)
  have start : daysBeforeMonth (yearOf (n - 1)) 1 = 0 := rfl
  obtain ⟨low, high, day, days, number⟩ := monthOf_spec (yearOf (n - 1)) 11 1
    (n - 1 - daysBeforeYear (yearOf (n - 1))) rfl (by decide) (by omega)
  have year : yearOf (n - 1) ≤ 9999 := by
    by_contra late
    have beyond : dayLimit ≤ daysBeforeYear (yearOf (n - 1)) + 1 :=
      Nat.succ_le_succ (daysBeforeYear_mono (Nat.lt_of_not_le late))
    omega
  refine ⟨⟨⟨first, year⟩, ⟨low, high⟩, ⟨day, days⟩⟩, ?_⟩
  rw [dayNumber]
  simp only [ofDayNumber]
  omega

end FileQuery.Date

def FileQuery.Instant.Dated (i : Instant) : Prop :=
  -62135596800000000 ≤ i.micros ∧ i.micros < 253402300800000000
  deriving Decidable
