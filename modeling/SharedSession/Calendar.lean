import SharedSession.Time
import SharedSession.Text.Decimal

set_option autoImplicit false

/-!
# Dates of timestamps

A timestamp as a date and a time of day in universal time, after the Gregorian calendar, which is
taken to hold before its introduction too; the year before year one is year zero. Its text is that
of RFC 3339: the year has four digits, or a sign and at least four if it has more or is negative,
and a fraction of a second stands only if there is one, with three digits.

Timestamps beyond the years that `Calendar.firstYear` and `Calendar.lastYear` bound have no date.
-/

namespace SharedSession

/-- A date and a time of day in universal time. -/
structure DateTime where
  year : Int
  /-- the month, from one -/
  month : Nat
  /-- the day of the month, from one -/
  day : Nat
  /-- the milliseconds since midnight -/
  milliOfDay : Nat
deriving DecidableEq, Repr, Inhabited

namespace Calendar

/-- The milliseconds of a day. -/
def millisPerDay : Nat := 86400000

/-- The days of four hundred years, after which the calendar repeats itself. -/
def daysPerCycle : Nat := 146097

/-- The days from the first of March of year zero to the epoch. -/
def daysBeforeEpoch : Nat := 719468

/-- The first year with dates. -/
def firstYear : Int := -262143

/-- The last year with dates. -/
def lastYear : Int := 262142

/-- The year that a day of a cycle is in, where years are counted from zero and start in March. A
leap day is the last day of its year: of each 1461 days, 36524 days and the whole cycle. -/
def yearOfCycle (day : Nat) : Nat := (day - day / 1460 + day / 36524 - day / 146096) / 365

/-- The days of a cycle before a year. -/
def daysBeforeYear (year : Nat) : Nat := 365 * year + year / 4 - year / 100

/-- The month that a day of a year is in, where both are counted from zero and start in March. Five
months in a row have 153 days. -/
def monthOfYear (day : Nat) : Nat := (5 * day + 2) / 153

/-- The days of a year before a month. -/
def daysBeforeMonth (month : Nat) : Nat := (153 * month + 2) / 5

/-- The year, month and day so many days after the epoch. -/
def dateOfDay (day : Int) : Int × Nat × Nat :=
  let shifted := day + daysBeforeEpoch
  let cycle := shifted.fdiv daysPerCycle
  let dayOfCycle := (shifted.fmod daysPerCycle).toNat
  let year := yearOfCycle dayOfCycle
  let dayOfYear := dayOfCycle - daysBeforeYear year
  let month := monthOfYear dayOfYear
  let isNextYear := 10 ≤ month
  (cycle * 400 + year + (if isNextYear then 1 else 0),
    if isNextYear then month - 9 else month + 3,
    dayOfYear - daysBeforeMonth month + 1)

end Calendar

namespace DateTime

/-- The date and time of a timestamp, if its year has dates. -/
def ofTimestamp? (t : Timestamp) : Option DateTime :=
  let (year, month, day) := Calendar.dateOfDay (t.millis.fdiv Calendar.millisPerDay)
  if Calendar.firstYear ≤ year ∧ year ≤ Calendar.lastYear then
    some ⟨year, month, day, (t.millis.fmod Calendar.millisPerDay).toNat⟩
  else none

/-- A number with at least so many digits. -/
def padded (count n : Nat) : List Char :=
  let ds := Decimal.digits n
  List.replicate (count - ds.length) '0' ++ ds

/-- A year. -/
def yearText (year : Int) : List Char :=
  if year < 0 then '-' :: padded 4 year.natAbs
  else if 9999 < year then '+' :: padded 4 year.natAbs
  else padded 4 year.natAbs

/-- A date and time. -/
def render (d : DateTime) : String :=
  let second := d.milliOfDay / 1000
  let milli := d.milliOfDay % 1000
  String.ofList (yearText d.year ++ '-' :: padded 2 d.month ++ '-' :: padded 2 d.day
    ++ 'T' :: padded 2 (second / 3600) ++ ':' :: padded 2 (second / 60 % 60)
    ++ ':' :: padded 2 (second % 60)
    ++ (if milli = 0 then [] else '.' :: padded 3 milli) ++ "+00:00".toList)

end DateTime

end SharedSession
