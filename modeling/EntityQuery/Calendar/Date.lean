import EntityQuery.Text.Digits

/-!
# Dates of the proleptic Gregorian calendar

The Gregorian leap-year rule holds for every year, and the year 0 exists. A date is valid if its
month and its day are; `next` and `prev` step to the neighbouring day.
-/

namespace EntityQuery

/-- A year, a month from 1 and a day of the month from 1. -/
structure Date where
  year : Int
  month : Nat
  day : Nat
  deriving DecidableEq, Repr

namespace Date

/-- Every fourth year is a leap year, save the hundredth ones, save again the four hundredth
ones. -/
def isLeapYear (year : Int) : Bool :=
  decide (year % 4 = 0) && (decide (year % 100 ≠ 0) || decide (year % 400 = 0))

/-- The number of days of a month. -/
def daysInMonth (year : Int) (month : Nat) : Nat :=
  match month with
  | 4 | 6 | 9 | 11 => 30
  | 2 => if isLeapYear year then 29 else 28
  | _ => 31

/-- The first year of the calendar. -/
def minYear : Int := -262143

/-- The last year of the calendar. -/
def maxYear : Int := 262142

/-- The date of a year, a month and a day, if the calendar has it. -/
def ofParts? (year : Int) (month day : Nat) : Option Date :=
  if minYear ≤ year ∧ year ≤ maxYear ∧ 1 ≤ month ∧ month ≤ 12 ∧
      1 ≤ day ∧ day ≤ daysInMonth year month then
    some ⟨year, month, day⟩
  else none

/-- The day after. -/
def next (d : Date) : Date :=
  if d.day < daysInMonth d.year d.month then ⟨d.year, d.month, d.day + 1⟩
  else if d.month < 12 then ⟨d.year, d.month + 1, 1⟩
  else ⟨d.year + 1, 1, 1⟩

/-- The day before. -/
def prev (d : Date) : Date :=
  if 1 < d.day then ⟨d.year, d.month, d.day - 1⟩
  else if 1 < d.month then ⟨d.year, d.month - 1, daysInMonth d.year (d.month - 1)⟩
  else ⟨d.year - 1, 12, 31⟩

/-- Four digits for the years 0 to 9999; a sign and at least four digits for all others. -/
def yearText (year : Int) : String :=
  if 0 ≤ year ∧ year ≤ 9999 then Text.paddedText 4 year.toNat
  else (if year < 0 then "-" else "+") ++ Text.paddedText 4 year.natAbs

/-- The text `year-month-day`. -/
def text (d : Date) : String :=
  yearText d.year ++ "-" ++ Text.paddedText 2 d.month ++ "-" ++ Text.paddedText 2 d.day

end Date

end EntityQuery
