/-!
# The Gregorian calendar

A day is numbered from the first of January 1970. The calendar repeats after 400 years,
which have 146097 days; inside such an era years are counted from the first of March, so
that the leap day is the last day of its year.

* `Date.ofDays` gives the date of a day number.
* `Date.toDays` gives the day number of a date.
-/

namespace PhaseFlow

/-- A date of the Gregorian calendar; months and days are counted from 1. -/
structure Date where
  year : Int
  month : Nat
  day : Nat
  deriving DecidableEq

namespace Date

/-- The days of one era of 400 years. -/
def daysPerEra : Nat :=
  146097

/-- The days between the first of March of the year 0 and the first of January 1970. -/
def epochOffset : Int :=
  719468

/-- The year of the era on whose days a day falls, years starting in March. -/
def yearOfEra (day : Nat) : Nat :=
  (day - day / 1460 + day / 36524 - day / 146096) / 365

/-- The days of an era before one of its years. -/
def daysBeforeYear (year : Nat) : Nat :=
  365 * year + year / 4 - year / 100

/-- The days of a March-based year before one of its months, March being month 0. -/
def daysBeforeMonth (month : Nat) : Nat :=
  (153 * month + 2) / 5

/-- The date of a day number. -/
def ofDays (days : Int) : Date :=
  let shifted := days + epochOffset
  let era := shifted / (daysPerEra : Int)
  let dayOfEra := (shifted % (daysPerEra : Int)).toNat
  let year := yearOfEra dayOfEra
  let dayOfYear := dayOfEra - daysBeforeYear year
  let month := (5 * dayOfYear + 2) / 153
  let day := dayOfYear - daysBeforeMonth month + 1
  if month < 10 then ⟨year + era * 400, month + 3, day⟩
  else ⟨year + era * 400 + 1, month - 9, day⟩

/-- The day number of a date. -/
def toDays (date : Date) : Int :=
  let (year, month) :=
    if 2 < date.month then (date.year, date.month - 3) else (date.year - 1, date.month + 9)
  let era := year / 400
  let yearOfEra := (year % 400).toNat
  era * daysPerEra + daysBeforeYear yearOfEra + daysBeforeMonth month + date.day - 1 -
    epochOffset

end Date

end PhaseFlow
