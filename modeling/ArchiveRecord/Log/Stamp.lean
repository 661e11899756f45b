/- # Log.Stamp -- reading time stamps

The calendar from its rules: which years are leap years, how long the months
are, and how many days have passed before a date. A stamp is read field by field
and counts only where its fields are a day of the calendar and a time of day. The
form of a stamp says where its digits stand and what stands between them.
-/
import ArchiveRecord.Log.Instant

namespace ArchiveRecord.Log

/-! ## The calendar -/

/-- A leap year: each fourth year, except each hundredth that is no four hundredth. -/
def isLeapYear (year : Int) : Bool := 4 ∣ year ∧ (¬100 ∣ year ∨ 400 ∣ year)

/-- The number of days of a month. -/
def monthLength (year : Int) : Nat → Nat
  | 2 => if isLeapYear year then 29 else 28
  | 4 | 6 | 9 | 11 => 30
  | _ => 31

namespace Date

/-- The date is a day of the calendar, in one of the years 1 to 9999. -/
def isValid (date : Date) : Bool :=
  1 ≤ date.year ∧ date.year ≤ 9999 ∧ 1 ≤ date.month ∧ date.month ≤ 12 ∧ 1 ≤ date.day
    ∧ date.day ≤ monthLength date.year date.month

/-- The days from the start of the year 1 to the start of a year. -/
def daysBeforeYear (year : Int) : Int :=
  365 * (year - 1) + (year - 1) / 4 - (year - 1) / 100 + (year - 1) / 400

/-- The days from the start of a year to the start of a month. -/
def daysBeforeMonth (year : Int) : Nat → Nat
  | 0 | 1 => 0
  | month + 1 => daysBeforeMonth year month + monthLength year month

/-- The days from the start of 1970 to a date. -/
def days (date : Date) : Int :=
  daysBeforeYear date.year - daysBeforeYear 1970 + daysBeforeMonth date.year date.month + date.day
    - 1

end Date

/-! ## Stamps -/

/-- The form of a stamp. A zero stands for any digit, and any other character for itself. -/
def stampForm : List Char := "0000-00-00T00:00:00.000Z".toList

/-- The text has the form. -/
def hasForm : List Char → List Char → Bool
  | [], [] => true
  | '0' :: form, c :: text => c.isDigit && hasForm form text
  | mark :: form, c :: text => c = mark && hasForm form text
  | _, _ => false

/-- The milliseconds from the start of 1970 to the instant of a stamp. -/
def readStamp? : List Char → Option Int
  | [y₁, y₂, y₃, y₄, '-', m₁, m₂, '-', d₁, d₂, 'T', h₁, h₂, ':', n₁, n₂, ':', s₁, s₂, '.',
      k₁, k₂, k₃, 'Z'] => do
    let year ← Text.number? 10 [y₁, y₂, y₃, y₄]
    let month ← Text.number? 10 [m₁, m₂]
    let day ← Text.number? 10 [d₁, d₂]
    let hour ← Text.number? 10 [h₁, h₂]
    let minute ← Text.number? 10 [n₁, n₂]
    let second ← Text.number? 10 [s₁, s₂]
    let millisecond ← Text.number? 10 [k₁, k₂, k₃]
    let date : Date := ⟨year, month, day⟩
    if date.isValid ∧ hour < 24 ∧ minute < 60 ∧ second < 60 then
      some ((((date.days * 24 + hour) * 60 + minute) * 60 + second) * 1000 + millisecond)
    else none
  | _ => none

end ArchiveRecord.Log
