/- # Proofs.Log.Calendar -- the date of a day is a day of the calendar

`Date.ofDays` counts from the first of March of a year that a multiple of 400 names,
so that each leap day is the last day of its year, and finds year and month by
division. `Date.days` counts the days before a date by the rules of the calendar. The
two meet at the first of March: the days before it are a formula in the year alone
(`daysBeforeYear_succ`), and the months from there on have lengths that do not depend
on the year, up to the last.

Days are counted upward with the dates, so a day has no second date.
-/
import ArchiveRecord.Log.Stamp
import Mathlib.Order.Monotone.Basic
import Mathlib.Tactic.IntervalCases

namespace ArchiveRecord.Log

/-! ## Years -/

/-- The days by which a year is longer than 365. -/
def leapDay (year : Int) : Nat := if isLeapYear year then 1 else 0

theorem isLeapYear_iff {year : Int} :
    isLeapYear year = true ↔ 4 ∣ year ∧ (¬100 ∣ year ∨ 400 ∣ year) := decide_eq_true_iff

/-- Leap years come round with each cycle of four hundred years. -/
theorem isLeapYear_cycle (cycle year : Int) : isLeapYear (cycle * 400 + year) = isLeapYear year := by
  rw [Bool.eq_iff_iff, isLeapYear_iff, isLeapYear_iff]
  omega

theorem leapDay_cases (year : Int) :
    (leapDay year = 1 ∧ 4 ∣ year ∧ (¬100 ∣ year ∨ 400 ∣ year))
      ∨ (leapDay year = 0 ∧ ¬(4 ∣ year ∧ (¬100 ∣ year ∨ 400 ∣ year))) := by
  rw [leapDay]
  split
  next h => exact .inl ⟨rfl, isLeapYear_iff.mp h⟩
  next h => exact .inr ⟨rfl, fun hleap => h (isLeapYear_iff.mpr hleap)⟩

/-- **Each year has 365 days, and one more where it is a leap year.** -/
theorem daysBeforeYear_succ (year : Int) :
    Date.daysBeforeYear (year + 1) = Date.daysBeforeYear year + 365 + leapDay year := by
  rw [Date.daysBeforeYear, Date.daysBeforeYear]
  rcases leapDay_cases year with ⟨hday, hleap⟩ | ⟨hday, hleap⟩
  · rw [hday]
    omega
  · rw [hday]
    omega

theorem daysBeforeYear_mono {year later : Int} (h : year ≤ later) :
    Date.daysBeforeYear year ≤ Date.daysBeforeYear later := by
  rcases Int.lt_or_eq_of_le h with hlt | rfl
  · rw [Date.daysBeforeYear, Date.daysBeforeYear]
    omega
  · exact Int.le_refl _

/-! ## Months -/

theorem monthLength_february (year : Int) : monthLength year 2 = 28 + leapDay year := by
  rw [monthLength, leapDay]
  split <;> rfl

theorem monthLength_le (year : Int) (month : Nat) : monthLength year month ≤ 31 := by
  unfold monthLength
  split
  next => split <;> decide
  all_goals decide

theorem daysBeforeMonth_succ (year : Int) {month : Nat} (h : 1 ≤ month) :
    Date.daysBeforeMonth year (month + 1)
      = Date.daysBeforeMonth year month + monthLength year month := by
  obtain ⟨month, rfl⟩ := Nat.exists_eq_add_of_le' h
  rw [Date.daysBeforeMonth]
  simp

/-- The months of a year, from March on. -/
theorem daysBeforeMonth_march (year : Int) {month : Nat} (h : month ≤ 9) :
    Date.daysBeforeMonth year (month + 3) = 59 + leapDay year + (153 * month + 2) / 5 := by
  have hfebruary := monthLength_february year
  interval_cases month <;> simp [Date.daysBeforeMonth, monthLength] at hfebruary ⊢ <;> omega

theorem daysBeforeMonth_mono (year : Int) : Monotone (Date.daysBeforeMonth year) := by
  refine monotone_nat_of_le_succ fun month => ?_
  cases month with
  | zero => exact Nat.le_refl _
  | succ month =>
      rw [daysBeforeMonth_succ year (Nat.le_add_left 1 month)]
      exact Nat.le_add_right _ _

/-- The months fill the year. -/
theorem daysBeforeMonth_thirteen (year : Int) :
    Date.daysBeforeMonth year 13 = 365 + leapDay year := by
  rw [daysBeforeMonth_succ year (by omega), daysBeforeMonth_march year (Nat.le_refl 9)]
  show _ + 31 = _
  omega

/-! ## Finding the date of a day -/

/-- A day of a cycle lies in one of its years that start in March. Only a year in front of a leap day
has a day 365. -/
theorem yearAndDay_spec {dayOfCycle : Nat} (h : dayOfCycle < cycleDays) :
    ∃ year day, yearAndDay dayOfCycle = (year, day) ∧ year < 400
      ∧ dayOfCycle = 365 * year + year / 4 - year / 100 + day ∧ day ≤ 365
      ∧ (day = 365 → isLeapYear (year + 1) = true) := by
  have h : dayOfCycle < 146097 := h
  refine ⟨_, _, rfl, ?_⟩
  simp only [centuryDays, leapDays, isLeapYear_iff]
  -- The last century and the last year of four may be one day longer, hence the two minima.
  generalize hcentury : min (dayOfCycle / 36524) 3 = century
  generalize hdayOfCentury : dayOfCycle - century * 36524 = dayOfCentury
  generalize hleap : dayOfCentury / 1461 = leap
  generalize hdayOfLeap : dayOfCentury % 1461 = dayOfLeap
  generalize hyear : min (dayOfLeap / 365) 3 = year
  have hlast : dayOfCentury ≤ 36524 ∧ (dayOfCentury = 36524 → century = 3) := by omega
  have hday : dayOfLeap - year * 365 ≤ 365
      ∧ (dayOfLeap - year * 365 = 365 → dayOfLeap = 1460 ∧ year = 3) := by omega
  have hparts : (century * 100 + leap * 4 + year) / 4 = century * 25 + leap
      ∧ (century * 100 + leap * 4 + year) / 100 = century := by omega
  obtain ⟨hquarter, hhundredth⟩ := hparts
  refine ⟨by omega, ?_, hday.1, ?_⟩
  · rw [hquarter, hhundredth]
    omega
  · intro hlong
    obtain ⟨hdays, hthird⟩ := hday.2 hlong
    omega

/-- A day of a year that starts in March lies in one of its months. -/
theorem monthAndDay_spec {dayOfYear : Nat} (h : dayOfYear ≤ 365) :
    ∃ month day, monthAndDay dayOfYear = (month, day) ∧ month ≤ 11 ∧ 1 ≤ day
      ∧ dayOfYear + 1 = (153 * month + 2) / 5 + day ∧ dayOfYear < (153 * (month + 1) + 2) / 5 := by
  refine ⟨_, _, rfl, ?_⟩
  generalize hmonth : (5 * dayOfYear + 2) / 153 = month
  refine ⟨?_, ?_, ?_, ?_⟩ <;> omega

namespace Date

/-- **`date.IsDay`** -- the month is one of the year and the day is one of the month. -/
structure IsDay (date : Date) : Prop where
  month_pos : 1 ≤ date.month
  month_le : date.month ≤ 12
  day_pos : 1 ≤ date.day
  day_le : date.day ≤ monthLength date.year date.month

theorem isValid_iff {date : Date} :
    date.isValid = true ↔ date.IsDay ∧ 1 ≤ date.year ∧ date.year ≤ 9999 := by
  rw [isValid, decide_eq_true_iff]
  constructor
  · rintro ⟨hyear, hlast, hmonth, htwelve, hday, hlength⟩
    exact ⟨⟨hmonth, htwelve, hday, hlength⟩, hyear, hlast⟩
  · rintro ⟨⟨hmonth, htwelve, hday, hlength⟩, hyear, hlast⟩
    exact ⟨hyear, hlast, hmonth, htwelve, hday, hlength⟩

/-- A day of a year that starts in March, as a date. Only the twelfth month has a last day that
depends on the year. -/
theorem isDay_and_days_of_march (year : Int) {month day : Nat} (hmonth : month ≤ 11) (hday : 1 ≤ day)
    (hbound : (153 * month + 2) / 5 + day < (153 * (month + 1) + 2) / 5 + 1)
    (hlast : (153 * month + 2) / 5 + day ≤ 365 + leapDay (year + 1)) :
    let date : Date := if month < 10 then ⟨year, month + 3, day⟩ else ⟨year + 1, month - 9, day⟩
    date.IsDay
      ∧ date.days = daysBeforeYear (year + 1) - 719469 + ((153 * month + 2) / 5 + day : Nat) := by
  intro date
  have hstart : daysBeforeYear 1970 = 719162 := rfl
  by_cases hearly : month < 10
  · have hdate : date = ⟨year, month + 3, day⟩ := if_pos hearly
    have hnext := daysBeforeYear_succ year
    have hbefore := daysBeforeMonth_march year (Nat.le_of_lt_succ hearly)
    rw [hdate]
    refine ⟨⟨by simp, by simp; omega, hday, ?_⟩, ?_⟩
    · show day ≤ monthLength year (month + 3)
      interval_cases month <;> simp [monthLength] <;> omega
    · show daysBeforeYear year - daysBeforeYear 1970 + daysBeforeMonth year (month + 3) + day - 1 = _
      rw [hstart, hbefore]
      omega
  · have hdate : date = ⟨year + 1, month - 9, day⟩ := if_neg hearly
    rw [hdate]
    obtain rfl | rfl : month = 10 ∨ month = 11 := by omega
    · refine ⟨⟨by simp, by simp, hday, ?_⟩, ?_⟩
      · simp [monthLength]
        omega
      · rw [days, hstart]
        simp [daysBeforeMonth]
        omega
    · refine ⟨⟨by simp, by simp, hday, ?_⟩, ?_⟩
      · show day ≤ monthLength (year + 1) 2
        rw [monthLength_february]
        omega
      · rw [days, hstart]
        simp [daysBeforeMonth, monthLength]
        omega

/-- **The date of a day is a day of the calendar, and the one that it is the date of.** -/
theorem ofDays_spec (number : Int) : (ofDays number).IsDay ∧ (ofDays number).days = number := by
  obtain ⟨cycle, hcycle⟩ : ∃ cycle, (number - marchZero) / cycleDays = cycle := ⟨_, rfl⟩
  obtain ⟨dayOfCycle, hdayOfCycle⟩ : ∃ day, ((number - marchZero) % cycleDays).toNat = day :=
    ⟨_, rfl⟩
  have hrest : (number - marchZero) % cycleDays = dayOfCycle := by
    rw [← hdayOfCycle, Int.toNat_of_nonneg (Int.emod_nonneg _ (by decide))]
  have hlt : dayOfCycle < cycleDays := by
    have hrange : (number - marchZero) % cycleDays < cycleDays := Int.emod_lt_of_pos _ (by decide)
    omega
  have hnumber := Int.mul_ediv_add_emod (number - marchZero) cycleDays
  rw [hcycle, hrest, show (cycleDays : Int) = 146097 from rfl,
    show marchZero = -719468 from rfl] at hnumber
  obtain ⟨year, dayOfYear, hyear, hyears, hday, hle, hlong⟩ := yearAndDay_spec hlt
  obtain ⟨month, day, hmonth, hmonths, hpos, hdays, hbound⟩ := monthAndDay_spec hle
  have hlast : (153 * month + 2) / 5 + day ≤ 365 + leapDay (cycle * 400 + year + 1) := by
    have hleap : dayOfYear = 365 → leapDay (cycle * 400 + year + 1) = 1 := by
      intro h
      rw [leapDay, Int.add_assoc, isLeapYear_cycle, if_pos (hlong h)]
    omega
  have hspec := isDay_and_days_of_march (cycle * 400 + year) hmonths hpos (by omega) hlast
  have hdate : ofDays number = if month < 10 then ⟨cycle * 400 + year, month + 3, day⟩
      else ⟨cycle * 400 + year + 1, month - 9, day⟩ := by
    rw [ofDays, hcycle, hdayOfCycle, hyear, hmonth]
  rw [hdate]
  refine ⟨hspec.1, hspec.2.trans ?_⟩
  rw [daysBeforeYear]
  omega

/-! ## Dates in order -/

/-- **`date.Before later`** -- the date is the earlier one, by year, then month, then day. -/
def Before (date later : Date) : Prop :=
  date.year < later.year ∨ date.year = later.year ∧
    (date.month < later.month ∨ date.month = later.month ∧ date.day < later.day)

theorem before_trichotomy (date other : Date) :
    date.Before other ∨ date = other ∨ other.Before date := by
  obtain ⟨year, month, day⟩ := date
  obtain ⟨otherYear, otherMonth, otherDay⟩ := other
  simp only [Before, Date.mk.injEq]
  omega

namespace IsDay

variable {date later : Date}

/-- A day lies in front of the next month. -/
theorem days_lt_month (h : date.IsDay) {month : Nat} (hlt : date.month < month) :
    date.days < daysBeforeYear date.year - daysBeforeYear 1970 + daysBeforeMonth date.year month := by
  have hnext := daysBeforeMonth_succ date.year h.month_pos
  have hmono : daysBeforeMonth date.year (date.month + 1) ≤ daysBeforeMonth date.year month :=
    daysBeforeMonth_mono date.year hlt
  have hday := h.day_le
  rw [days]
  omega

/-- A day lies in front of the next year. -/
theorem days_lt_year (h : date.IsDay) :
    date.days < daysBeforeYear (date.year + 1) - daysBeforeYear 1970 := by
  have hthirteen : date.month < 13 := Nat.lt_succ_of_le h.month_le
  have hmonth := h.days_lt_month hthirteen
  rw [daysBeforeMonth_thirteen] at hmonth
  rw [daysBeforeYear_succ]
  omega

/-- **Days are counted upward with the dates.** -/
theorem days_lt (h : date.IsDay) (hlater : later.IsDay) (hbefore : date.Before later) :
    date.days < later.days := by
  have hpos := hlater.day_pos
  rcases hbefore with hyear | ⟨hyear, hmonth | ⟨hmonth, hday⟩⟩
  · have hnext := h.days_lt_year
    have hmono := daysBeforeYear_mono (Int.add_one_le_of_lt hyear)
    rw [days.eq_def later]
    omega
  · have hnext := h.days_lt_month hmonth
    rw [days.eq_def later, ← hyear]
    omega
  · rw [days, days, hyear, hmonth]
    omega

theorem before_of_days_lt (h : date.IsDay) (hlater : later.IsDay) (hlt : date.days < later.days) :
    date.Before later := by
  rcases before_trichotomy date later with hbefore | rfl | hafter
  · exact hbefore
  · omega
  · have := hlater.days_lt h hafter
    omega

/-- **A day has one date.** -/
theorem eq_of_days_eq (h : date.IsDay) (hlater : later.IsDay) (heq : date.days = later.days) :
    date = later := by
  rcases before_trichotomy date later with hbefore | hsame | hafter
  · have := h.days_lt hlater hbefore
    omega
  · exact hsame
  · have := hlater.days_lt h hafter
    omega

theorem ofDays_days (h : date.IsDay) : ofDays date.days = date :=
  (ofDays_spec date.days).1.eq_of_days_eq h (ofDays_spec date.days).2

end IsDay

end Date

end ArchiveRecord.Log
