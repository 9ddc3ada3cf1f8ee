/-! Dates of the proleptic Gregorian calendar, their weekdays and their weeks. -/
namespace Proforma

structure Date where
  year : Int
  month : Nat
  day : Nat
  deriving DecidableEq, Repr

namespace Date

def leastYear : Int := -262143

def greatestYear : Int := 262142

def isLeapYear (year : Int) : Bool := year % 4 == 0 && (year % 100 != 0 || year % 400 == 0)

def daysInMonth (year : Int) (month : Nat) : Nat :=
  if month == 2 then if isLeapYear year then 29 else 28
  else if month == 4 || month == 6 || month == 9 || month == 11 then 30 else 31

/-- The date, if the calendar has it. -/
def ofFields? (year : Int) (month day : Nat) : Option Date :=
  if leastYear ≤ year ∧ year ≤ greatestYear ∧ 1 ≤ month ∧ month ≤ 12 ∧ 1 ≤ day ∧
      day ≤ daysInMonth year month then some ⟨year, month, day⟩
  else none

/-- Days before the first day of a month, in its year. -/
def daysBeforeMonth (year : Int) : Nat → Nat
  | 0 | 1 => 0
  | month + 2 => daysBeforeMonth year (month + 1) + daysInMonth year (month + 1)

/-- Day of the year, from one. -/
def ordinal (d : Date) : Nat := daysBeforeMonth d.year d.month + d.day

/-- Days from the first day of the year zero to the first day of a year. -/
def daysBeforeYear (year : Int) : Int :=
  let y := year - 1
  365 * year + y / 4 - y / 100 + y / 400 + 1

/-- Days since 1970-01-01. -/
def epochDay (d : Date) : Int := daysBeforeYear d.year - daysBeforeYear 1970 + (d.ordinal - 1)

/-- Days since the last Monday. -/
def daysFromMonday (d : Date) : Nat := ((d.epochDay + 3) % 7).toNat

def daysFromSunday (d : Date) : Nat := (d.daysFromMonday + 1) % 7

def quarter (d : Date) : Nat := (d.month - 1) / 3 + 1

/-- Weeks of the year that begin on or before the date, weeks starting on Sunday. -/
def weekFromSunday (d : Date) : Nat := (d.ordinal + 6 - d.daysFromSunday) / 7

/-- Weeks of the year that begin on or before the date, weeks starting on Monday. -/
def weekFromMonday (d : Date) : Nat := (d.ordinal + 6 - d.daysFromMonday) / 7

/-- A year has 53 weeks of the ISO calendar when it begins or ends on a Thursday. -/
def isoWeeksInYear (year : Int) : Nat :=
  let thursday (d : Date) := d.daysFromMonday == 3
  if thursday ⟨year, 1, 1⟩ || thursday ⟨year, 12, 31⟩ then 53 else 52

/-- Year and week of the ISO calendar: weeks start on Monday and belong to the year that holds
their Thursday. -/
def isoWeek (d : Date) : Int × Nat :=
  let week := (d.ordinal + 9 - d.daysFromMonday) / 7
  if week = 0 then (d.year - 1, isoWeeksInYear (d.year - 1))
  else if isoWeeksInYear d.year < week then (d.year + 1, 1)
  else (d.year, week)

example : epochDay ⟨1970, 1, 1⟩ = 0 := by decide
example : epochDay ⟨2024, 3, 5⟩ = 19787 := by decide
example : isoWeek ⟨2021, 1, 3⟩ = (2020, 53) := by decide
example : (ofFields? 1900 2 29) = none := by decide

end Date

end Proforma
