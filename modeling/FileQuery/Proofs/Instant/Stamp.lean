import FileQuery.Instant.Basic
import FileQuery.Proofs.Instant.Calendar
import Mathlib.Algebra.Group.Nat.Defs
import Mathlib.Order.MinMax
import Mathlib.Tactic.ByContra
import Mathlib.Tactic.SplitIfs

/-! # Instants from a count of seconds

The instant of a count of seconds lies in the years 1 to 9999 (`dated_of_ofDecimalSeconds`): its whole
seconds are checked to do so, and rounding never takes a fraction of a second above one
(`round_timesRounded_fraction_le`). Whole seconds of those years are what they count
(`instant_ofInstant_iff`). -/
set_option autoImplicit false
namespace FileQuery

/-! ## Rounding -/

namespace Number

theorem roundDiv_le {num den bound : Nat} (within : num ≤ bound * den) : roundDiv num den ≤ bound := by
  have whole := Nat.div_add_mod num den
  have quotient : num / den ≤ bound := Nat.div_le_of_le_mul (Nat.mul_comm bound den ▸ within)
  have next : roundDiv num den ≤ num / den + 1 := by
    simp only [roundDiv]
    split_ifs <;> omega
  rcases Nat.lt_or_eq_of_le quotient with less | same
  · omega
  · -- nothing is left over, so nothing is rounded up
    have exact : num % den = 0 := by
      rw [same, Nat.mul_comm] at whole
      omega
    simp only [roundDiv, exact, Nat.mul_zero, Nat.not_lt_zero, if_false, same]
    split_ifs with zero even
    · exact Nat.le_refl bound
    · rw [← zero, Nat.div_zero] at same
      exact absurd (by rw [← same]) even
    · exact Nat.le_refl bound

theorem log2_le_log2_add {num den bound : Nat} (some : num ≠ 0)
    (within : num ≤ 2 ^ bound * den) : num.log2 ≤ den.log2 + bound := by
  have size : num < 2 ^ (den.log2 + bound + 1) :=
    calc num ≤ 2 ^ bound * den := within
      _ < 2 ^ bound * 2 ^ (den.log2 + 1) :=
        Nat.mul_lt_mul_of_pos_left Nat.lt_log2_self (Nat.two_pow_pos bound)
      _ = 2 ^ (den.log2 + bound + 1) := by
        rw [← Nat.pow_add]
        congr 1
        omega
  exact Nat.le_of_lt_succ ((Nat.log2_lt some).mpr size)

theorem toDouble_of_small {num den : Nat} (some : num ≠ 0) (small : num ≤ 2 ^ 51 * den) :
    ∃ k, toDouble num den = ⟨roundDiv (num * Nat.pow 2 (k + 1)) den, .negSucc k⟩ := by
  have size := log2_le_log2_add some small
  rw [toDouble, if_neg some]
  simp only
  split
  · next k large =>
      have whole : 0 ≤ Int.ofNat k := Int.natCast_nonneg k
      rw [← large] at whole
      rcases le_max_iff.mp whole with bits | least
      · have most : 0 ≤ (num.log2 : Int) - den.log2 - 52 := by
          split_ifs at bits
          · exact bits
          · exact Int.le_trans bits (Int.sub_le_sub_right (Int.sub_le_self _ Int.one_nonneg) 52)
        omega
      · exact absurd least (by decide)
  · next k behind => exact ⟨k, by rw [behind]⟩

/-- A quotient of no more than a small integer is rounded to no more than it. -/
theorem round_toDouble_le {num den bound : Nat} (small : bound ≤ 2 ^ 20)
    (within : num ≤ bound * den) : (toDouble num den).round ≤ bound := by
  by_cases none : num = 0
  · rw [toDouble, if_pos none]
    exact Nat.zero_le bound
  · have few : bound ≤ 2 ^ 51 := Nat.le_trans small (by decide)
    obtain ⟨k, rounded⟩ :=
      toDouble_of_small none (Nat.le_trans within (Nat.mul_le_mul_right den few))
    have mantissa : roundDiv (num * Nat.pow 2 (k + 1)) den ≤ bound * Nat.pow 2 (k + 1) := by
      apply roundDiv_le
      rw [Nat.mul_right_comm]
      exact Nat.mul_le_mul_right _ within
    rw [rounded]
    simp only [Dyadic.round, Dyadic.scaled, Nat.mul_one]
    exact roundDiv_le mantissa

theorem roundDiv_mul (q : Nat) {den : Nat} (some : 0 < den) : roundDiv (q * den) den = q := by
  have less : ¬ den < 0 := Nat.not_lt_zero den
  simp [roundDiv, Nat.mul_div_cancel q some, Nat.ne_of_lt some]

/-- A quotient that is a small integer is that integer, with nothing behind the point. -/
theorem toDouble_mul {q den : Nat} (small : q ≤ 2 ^ 51) (some : 0 < den) :
    (toDouble (q * den) den).floor = q ∧ (toDouble (q * den) den).fraction.mantissa = 0 := by
  by_cases none : q * den = 0
  · obtain rfl : q = 0 := (Nat.mul_eq_zero.mp none).resolve_right (Nat.ne_of_gt some)
    rw [toDouble, if_pos none]
    exact ⟨rfl, rfl⟩
  · obtain ⟨k, rounded⟩ := toDouble_of_small none (Nat.mul_le_mul_right den small)
    have exact : roundDiv (q * den * Nat.pow 2 (k + 1)) den = q * Nat.pow 2 (k + 1) := by
      rw [Nat.mul_right_comm]
      exact roundDiv_mul _ some
    rw [rounded, exact]
    constructor
    · simp only [Dyadic.floor, Dyadic.scaled, Nat.mul_one]
      exact Nat.mul_div_cancel q (Nat.two_pow_pos (k + 1))
    · exact Nat.mul_mod_left q (Nat.pow 2 (k + 1))

theorem round_timesRounded_of_zero {d : Dyadic} (none : d.mantissa = 0) (factor : Nat) :
    (d.timesRounded factor).round = 0 := by
  obtain ⟨mantissa, exponent⟩ := d
  obtain rfl : mantissa = 0 := none
  cases exponent <;> simp [Dyadic.timesRounded, Dyadic.scaled, toDouble, Dyadic.round, roundDiv]

theorem round_timesRounded_fraction_le (d : Dyadic) {factor : Nat} (small : factor ≤ 2 ^ 20) :
    (d.fraction.timesRounded factor).round ≤ factor := by
  cases exponent : d.exponent with
  | ofNat e =>
      simp only [Dyadic.fraction, exponent, Dyadic.timesRounded, Dyadic.scaled]
      exact round_toDouble_le small (by simp)
  | negSucc e =>
      have below := Nat.mod_lt d.mantissa (Nat.two_pow_pos (e + 1))
      simp only [Dyadic.fraction, exponent, Dyadic.timesRounded, Dyadic.scaled]
      refine round_toDouble_le small ?_
      rw [Nat.mul_comm]
      exact Nat.mul_le_mul_left factor (Nat.le_of_lt below)

end Number

/-! ## Years -/

namespace Instant

theorem yearOfDay_iff (day : Int) :
    1 ≤ yearOfDay day ∧ yearOfDay day ≤ 9999 ↔ 0 ≤ day ∧ day + 1 < Date.dayLimit := by
  obtain ⟨some, before, after⟩ := Date.yearOf_spec (day % 146097).toNat
  simp only [yearOfDay, Date.dayLimit]
  generalize Date.yearOf (day % 146097).toNat = year at some before after
  have period : year ≤ 400 := by
    by_contra late
    have beyond : 146097 ≤ Date.daysBeforeYear year :=
      Date.daysBeforeYear_mono (Nat.lt_of_not_le late)
    omega
  have ends : year ≤ 399 ↔ (day % 146097).toNat < 145731 := by
    constructor
    · intro early
      rcases Nat.lt_or_eq_of_le early with less | rfl
      · have leap : Date.daysInYear year ≤ 366 := by
          rw [Date.daysInYear]
          split <;> decide
        have within : Date.daysBeforeYear year ≤ 145001 :=
          Date.daysBeforeYear_mono (Nat.le_of_lt_succ less)
        omega
      · exact after
    · intro early
      by_contra last
      have beyond : 145731 ≤ Date.daysBeforeYear year :=
        Date.daysBeforeYear_mono (Nat.lt_of_not_le last)
      omega
  omega

theorem dated_of_ofSeconds {seconds : Int} {micros : Nat} {i : Instant} (short : micros < 1000000)
    (made : ofSeconds seconds micros = .ok i) : i.Dated := by
  simp only [ofSeconds] at made
  split at made
  · cases made
  · split at made
    · cases made
    · split at made
      · cases made
      · next years =>
          obtain ⟨above, below⟩ := not_or.mp years
          obtain ⟨first, last⟩ := (yearOfDay_iff _).mp ⟨Int.not_lt.mp above, Int.not_lt.mp below⟩
          cases made
          simp only [Dated, epochDay, Date.dayLimit] at first last ⊢
          omega

theorem dated_of_ofDecimalSeconds {mantissa : Int} {places : Nat} {i : Instant}
    (made : ofDecimalSeconds mantissa places = .ok i) : i.Dated := by
  have most := Number.round_timesRounded_fraction_le
    (Number.toDouble mantissa.natAbs (Nat.pow 10 places)) (by decide : 1000000 ≤ 2 ^ 20)
  simp only [ofDecimalSeconds] at made
  split at made
  · split at made
    · exact dated_of_ofSeconds (by decide) made
    · split at made
      · exact dated_of_ofSeconds (by decide) made
      · exact dated_of_ofSeconds (by omega) made
  · split at made
    · exact dated_of_ofSeconds (by omega) made
    · exact dated_of_ofSeconds (by omega) made

theorem ofSeconds_of_dated {seconds : Int} (dated : Dated ⟨seconds * 1000000⟩) :
    ofSeconds seconds 0 = .ok ⟨seconds * 1000000⟩ := by
  obtain ⟨first, last⟩ := dated
  simp only at first last
  obtain ⟨above, below⟩ := (yearOfDay_iff (seconds / 86400 + epochDay - 1)).mpr
    ⟨by simp only [epochDay]; omega, by simp only [epochDay, Date.dayLimit]; omega⟩
  have clock : ¬ (seconds < -Int.pow 2 63 ∨ Int.pow 2 63 ≤ seconds) := by
    have limit : Int.pow 2 63 = 9223372036854775808 := rfl
    omega
  simp only [ofSeconds]
  rw [if_neg clock, if_neg (by omega), if_neg (by omega), Int.natCast_zero, Int.add_zero]

/-- Whole seconds are the instant they were counted from just if that lies in the years 1 to 9999. -/
theorem instant_ofInstant_iff {i : Instant} (whole : 1000000 ∣ i.micros) :
    (Seconds.ofInstant i).instant = .ok i ↔ i.Dated := by
  refine ⟨dated_of_ofDecimalSeconds, fun dated => ?_⟩
  obtain ⟨micros⟩ := i
  obtain ⟨seconds, rfl⟩ := whole
  rw [Int.mul_comm] at dated ⊢
  have counted : (seconds * 1000000).natAbs = seconds.natAbs * Nat.pow 10 6 := by
    rw [Int.natAbs_mul]
    rfl
  have small : seconds.natAbs ≤ 2 ^ 51 := by
    obtain ⟨first, last⟩ := dated
    simp only at first last
    omega
  obtain ⟨floor, fraction⟩ := Number.toDouble_mul small (by decide : 0 < Nat.pow 10 6)
  have behind := Number.round_timesRounded_of_zero fraction 1000000
  simp only [Seconds.instant, Seconds.ofInstant, ofDecimalSeconds, counted, floor, behind]
  split
  · next negative =>
      have same : -(seconds.natAbs : Int) = seconds := by omega
      rw [if_pos trivial, same]
      exact ofSeconds_of_dated dated
  · next positive =>
      have same : (seconds.natAbs : Int) = seconds := by omega
      rw [if_neg (by decide), same]
      exact ofSeconds_of_dated dated

end Instant

end FileQuery
