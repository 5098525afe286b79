/-!
# Dates

Days of the proleptic Gregorian calendar, counted from 1 January 1970. Counting years from March
puts the leap day at the end of a year, so that the number of a day follows from integer division
alone; four centuries are 146097 days, and every formula is the same in each of them.

## Main definitions

* `Date`: year, month and day of the month.
* `Date.toDays`, `Date.ofDays`: the count of days from 1 January 1970 and back.
* `Date.Valid`: month and day exist in the calendar.
-/

namespace GraphMapping.Calendar

/-- A day of the calendar. -/
structure Date where
  year : Int
  month : Nat
  day : Nat
deriving DecidableEq, Repr

namespace Date

/-- The year has a leap day. -/
def isLeap (year : Int) : Bool :=
  year % 4 = 0 && (year % 100 ≠ 0 || year % 400 = 0)

/-- The number of days of a month; none for a month that does not exist. -/
def daysInMonth (year : Int) (month : Nat) : Nat :=
  match month with
  | 1 | 3 | 5 | 7 | 8 | 10 | 12 => 31
  | 4 | 6 | 9 | 11 => 30
  | 2 => if isLeap year then 29 else 28
  | _ => 0

/-- Month and day exist in the calendar. -/
def Valid (d : Date) : Prop := 1 ≤ d.day ∧ d.day ≤ daysInMonth d.year d.month

instance (d : Date) : Decidable d.Valid := inferInstanceAs (Decidable (_ ∧ _))

/-- The number of days from 1 January 1970. -/
def toDays (d : Date) : Int :=
  let y := if d.month ≤ 2 then d.year - 1 else d.year
  let century := y.fdiv 400
  let yearOfCentury := y - century * 400
  let monthFromMarch : Int := (d.month + 9) % 12
  let dayOfYear := (153 * monthFromMarch + 2).fdiv 5 + d.day - 1
  let dayOfCentury :=
    yearOfCentury * 365 + yearOfCentury.fdiv 4 - yearOfCentury.fdiv 100 + dayOfYear
  century * 146097 + dayOfCentury - 719468

/-- The date that is the given number of days after 1 January 1970. -/
def ofDays (days : Int) : Date :=
  let z := days + 719468
  let century := z.fdiv 146097
  let dayOfCentury := z - century * 146097
  let yearOfCentury :=
    (dayOfCentury - dayOfCentury.fdiv 1460 + dayOfCentury.fdiv 36524
      - dayOfCentury.fdiv 146096).fdiv 365
  let dayOfYear :=
    dayOfCentury - (365 * yearOfCentury + yearOfCentury.fdiv 4 - yearOfCentury.fdiv 100)
  let monthFromMarch := (5 * dayOfYear + 2).fdiv 153
  let day := dayOfYear - (153 * monthFromMarch + 2).fdiv 5 + 1
  let month := if monthFromMarch < 10 then monthFromMarch + 3 else monthFromMarch - 9
  let year := yearOfCentury + century * 400 + if month ≤ 2 then 1 else 0
  ⟨year, month.toNat, day.toNat⟩

end Date

end GraphMapping.Calendar
