/- # Log.Instant -- instants and their time stamps

An instant is a number of microseconds since the start of the year 1970, before
it where negative. Its stamp is a date and a time of day in the proleptic
Gregorian calendar, at offset zero and cut to milliseconds. All fields of a
stamp have a fixed width, so stamps sort as texts; only the years 1 to 9999 have
one. Of the other instants, some have a year that can be told, and some lie
beyond what a clock of 64 bits or a calendar of 32 bits can hold.
-/
import ArchiveRecord.Text.Numeral

namespace ArchiveRecord.Log

/-! ## Dates -/

/-- A day of the calendar. -/
structure Date where
  year : Int
  month : Nat
  day : Nat
  deriving Repr, DecidableEq

/-- The days of four hundred years. -/
def cycleDays : Nat := 146097

/-- The days of a hundred years, where the last one is no leap year. -/
def centuryDays : Nat := 36524

/-- The days of four years, where the last one is a leap year. -/
def leapDays : Nat := 1461

/-- The first day of March of the year 0, counted from the start of 1970. A count from there puts
each leap day at the end of its year. -/
def marchZero : Int := -719468

/-- A day inside a cycle of four hundred years that start in March: its year in the cycle and its
day in the year, both counted from zero. -/
def yearAndDay (dayOfCycle : Nat) : Nat × Nat :=
  let century := min (dayOfCycle / centuryDays) 3
  let dayOfCentury := dayOfCycle - century * centuryDays
  let leap := dayOfCentury / leapDays
  let dayOfLeap := dayOfCentury % leapDays
  let year := min (dayOfLeap / 365) 3
  (century * 100 + leap * 4 + year, dayOfLeap - year * 365)

/-- A day inside a year that starts in March: its month, counted from zero for March, and its day
in the month, counted from one. -/
def monthAndDay (dayOfYear : Nat) : Nat × Nat :=
  let month := (5 * dayOfYear + 2) / 153
  (month, dayOfYear - (153 * month + 2) / 5 + 1)

/-- The date of a number of days since the start of 1970. -/
def Date.ofDays (days : Int) : Date :=
  let sinceMarch := days - marchZero
  let inCycle := yearAndDay (sinceMarch % cycleDays).toNat
  let inYear := monthAndDay inCycle.2
  let year := sinceMarch / cycleDays * 400 + inCycle.1
  if inYear.1 < 10 then ⟨year, inYear.1 + 3, inYear.2⟩ else ⟨year + 1, inYear.1 - 9, inYear.2⟩

/-! ## Limits -/

/-- A power of two. -/
def powerOfTwo (exponent : Nat) : Nat := Nat.pow 2 exponent

/-- A number as a word with a sign shows it. -/
def wrapped (bits : Nat) (n : Int) : Int := Int.bmod n (powerOfTwo bits)

/-- A word with a sign can hold the number. -/
def fits (bits : Nat) (n : Int) : Bool := wrapped bits n = n

/-- Why an instant has no stamp. -/
inductive StampFault where
  /-- A clock of 64 bits does not reach the second. -/
  | secondsTooLarge
  /-- A calendar that counts years from 1900 in 32 bits does not reach the year. -/
  | yearTooLarge
  /-- The year, as 32 bits show it, has no four digits. -/
  | yearOutOfRange (year : Int)
  deriving Repr, DecidableEq

/-- The wording of a fault. -/
def StampFault.message : StampFault → String
  | secondsTooLarge => "timestamp out of range for platform time_t"
  | yearTooLarge => "[Errno 75] Value too large for defined data type"
  | yearOutOfRange year => "year " ++ String.ofList (Text.integer year) ++ " is out of range"

/-! ## Instants -/

/-- Microseconds since the start of 1970. -/
structure Instant where
  microseconds : Int
  deriving Repr, DecidableEq

/-- The microseconds of a day. -/
def dayMicroseconds : Int := 86400000000

namespace Instant

/-- The date of an instant. -/
def date (instant : Instant) : Date := Date.ofDays (instant.microseconds / dayMicroseconds)

/-- The milliseconds that have passed of the day of an instant. -/
def millisecondOfDay (instant : Instant) : Nat :=
  (instant.microseconds % dayMicroseconds / 1000).toNat

/-- Why an instant without a stamp has none. -/
def stampFault (instant : Instant) : StampFault :=
  let year := instant.date.year
  if fits 64 (instant.microseconds / 1000000) = false then .secondsTooLarge
  else if fits 32 (year - 1900) = false then .yearTooLarge
  else .yearOutOfRange (wrapped 32 year)

/-- The time stamp of an instant, or why it has none. -/
def stamp (instant : Instant) : Except StampFault (List Char) :=
  let date := instant.date
  let clock := instant.millisecondOfDay
  if 1 ≤ date.year ∧ date.year ≤ 9999 then
    .ok (Text.numeral 10 4 date.year.toNat ++ '-' :: Text.numeral 10 2 date.month
      ++ '-' :: Text.numeral 10 2 date.day
      ++ 'T' :: Text.numeral 10 2 (clock / 3600000)
      ++ ':' :: Text.numeral 10 2 (clock / 60000 % 60)
      ++ ':' :: Text.numeral 10 2 (clock / 1000 % 60)
      ++ '.' :: Text.numeral 10 3 (clock % 1000) ++ ['Z'])
  else .error instant.stampFault

end Instant

/-! ## Clock readings -/

/-- A quotient rounded to the nearest integer, and to the even one where two are as near. -/
def roundEven (numerator denominator : Nat) : Nat :=
  let quotient := numerator / denominator
  let rest := numerator % denominator
  if 2 * rest < denominator then quotient
  else if denominator < 2 * rest then quotient + 1
  else quotient + quotient % 2

/-- A fraction of a second in microseconds: the product with a million is kept to the 53 bits of a
binary64 number and then rounded to an integer. -/
def fractionMicroseconds (numerator denominator : Nat) : Nat :=
  let product := numerator * 1000000
  let unit := powerOfTwo (product.log2 - 52)
  roundEven (roundEven product unit * unit) denominator

/-- The instant of a clock that shows seconds as a binary64 number. Whole seconds count exactly,
and their fraction is rounded to microseconds. -/
def Instant.ofSeconds (seconds : Float) : Instant :=
  let bits := seconds.toBits.toNat
  let exponent := bits / powerOfTwo 52 % powerOfTwo 11
  let fraction := bits % powerOfTwo 52
  let mantissa := if exponent = 0 then fraction else powerOfTwo 52 + fraction
  let shift := max exponent 1
  let magnitude :=
    if 1075 ≤ shift then mantissa * powerOfTwo (shift - 1075) * 1000000
    else
      let unit := powerOfTwo (1075 - shift)
      mantissa / unit * 1000000 + fractionMicroseconds (mantissa % unit) unit
  ⟨if bits / powerOfTwo 63 = 1 then -magnitude else magnitude⟩

end ArchiveRecord.Log
