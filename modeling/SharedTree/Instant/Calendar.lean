/-!
The Gregorian calendar for all years. A year is counted from the first of March, so that the leap
day ends it, and 400 years have 146097 days.
-/
namespace SharedTree

structure Date where
  year : Int
  month : Nat
  day : Nat
deriving DecidableEq

namespace Date

def isLeapYear (year : Int) : Bool :=
  decide (year % 4 = 0) && (decide (year % 100 ≠ 0) || decide (year % 400 = 0))

def daysInMonth (year : Int) (month : Nat) : Nat :=
  if month = 2 then (if isLeapYear year then 29 else 28)
  else if month = 4 ∨ month = 6 ∨ month = 9 ∨ month = 11 then 30
  else 31

def isValid (date : Date) : Bool :=
  decide (1 ≤ date.month) && decide (date.month ≤ 12) && decide (1 ≤ date.day) &&
    decide (date.day ≤ daysInMonth date.year date.month)

/-- How many days of a year, counted from the first of March, come before a month; March is 0. -/
def daysBeforeMonth (month : Nat) : Nat := (153 * month + 2) / 5

def daysBeforeYear (year : Nat) : Nat := 365 * year + year / 4 - year / 100

def toDay (date : Date) : Int :=
  let year := if date.month ≤ 2 then date.year - 1 else date.year
  let month := (date.month + 9) % 12
  let ofCycle := daysBeforeYear (year % 400).toNat + daysBeforeMonth month + (date.day - 1)
  year / 400 * 146097 + ofCycle - 719468

def ofDay (day : Int) : Date :=
  let shifted := day + 719468
  let ofCycle := (shifted % 146097).toNat
  let year := (ofCycle - ofCycle / 1460 + ofCycle / 36524 - ofCycle / 146096) / 365
  let ofYear := ofCycle - daysBeforeYear year
  let month := (5 * ofYear + 2) / 153
  let calendarMonth := if month < 10 then month + 3 else month - 9
  let calendarYear := shifted / 146097 * 400 + year
  { year := if calendarMonth ≤ 2 then calendarYear + 1 else calendarYear
    month := calendarMonth
    day := ofYear - daysBeforeMonth month + 1 }

end Date

end SharedTree
