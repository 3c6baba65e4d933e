/-!
# Calendar dates

The proleptic Gregorian calendar over day numbers: day 0 is 1 January 1970. Years are counted from
March inside, so that the leap day is the last day of its year.
-/

namespace Cadence

/-- A date: months and days of the month are counted from 1. -/
structure Date where
  year : Int
  month : Nat
  day : Nat
  deriving DecidableEq, Repr, Inhabited

namespace Date

/-- The date of a day number. An era is 400 years, 146097 days. -/
def ofDayNumber (n : Int) : Date :=
  let z := n + 719468
  let era := z / 146097
  let doe := z % 146097
  let yoe := (doe - doe / 1460 + doe / 36524 - doe / 146096) / 365
  let doy := doe - (365 * yoe + yoe / 4 - yoe / 100)
  let mp := (5 * doy + 2) / 153
  let day := doy - (153 * mp + 2) / 5 + 1
  let month := if mp < 10 then mp + 3 else mp - 9
  ⟨yoe + era * 400 + (if month ≤ 2 then 1 else 0), month.toNat, day.toNat⟩

/-- The day number of a date. -/
def dayNumber (d : Date) : Int :=
  let y := if d.month ≤ 2 then d.year - 1 else d.year
  let era := y / 400
  let yoe := y % 400
  let mp : Int := if 2 < d.month then d.month - 3 else d.month + 9
  let doy := (153 * mp + 2) / 5 + d.day - 1
  let doe := yoe * 365 + yoe / 4 - yoe / 100 + doy
  era * 146097 + doe - 719468

def isLeapYear (y : Int) : Bool := y % 4 = 0 && (y % 100 ≠ 0 || y % 400 = 0)

def daysInMonth (y : Int) (month : Nat) : Nat :=
  if month = 2 then (if isLeapYear y then 29 else 28)
  else if month ∈ [4, 6, 9, 11] then 30
  else 31

/-- The month and the day exist in the calendar. -/
def isValid (d : Date) : Bool :=
  1 ≤ d.month && d.month ≤ 12 && 1 ≤ d.day && d.day ≤ daysInMonth d.year d.month

/-- The day of the week, 0 for Sunday; day 0 was a Thursday. -/
def weekday (n : Int) : Nat := ((n + 4) % 7).toNat

example : ofDayNumber 0 = ⟨1970, 1, 1⟩ := by decide
example : ofDayNumber 47846 = ⟨2100, 12, 31⟩ := by decide
example : dayNumber ⟨2024, 2, 29⟩ = 19782 := by decide

end Date

end Cadence
