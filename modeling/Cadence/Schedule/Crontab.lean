import Cadence.Schedule.Expression
import Cadence.Text.Basic

/-!
# Five-field expressions

The fields minute, hour, day of the month, month and weekday. Weekdays are numbered from 0 for
Sunday, and 7 is Sunday as well; they are rewritten to names, which mean the same day under every
numbering.
-/

namespace Cadence.Schedule.Crontab

def dayNames : List String := ["Sun", "Mon", "Tue", "Wed", "Thu", "Fri", "Sat"]

/-- The greatest number that steps and days may have before they are looked at: 64 bits. -/
def number? (cs : List Char) : Option Nat := (Text.natOf? cs).filter (· ≤ Text.u64Max)

/-- What an item of a weekday field says. -/
inductive DayItem
  /-- the days from `first` to `last` in steps -/
  | days (first last step : Nat)
  /-- an item that is not written in numbers -/
  | verbatim (text : List Char)
  deriving DecidableEq, Repr

/-- The step after a slash, 1 without one. -/
def stepOf? : Option (List Char) → Option Nat
  | none => some 1
  | some cs => number? cs

/-- The item of a text: a star, a number or a range of numbers, each with an optional step; a number
with a step runs to Saturday. Other texts stay as they are. -/
def item? (cs : List Char) : Option DayItem :=
  let (base, after) := Text.cut '/' cs
  match stepOf? after with
  | none => none
  | some step =>
    if base = ['*'] then some (.days 0 6 step)
    else
      match Text.cut '-' base with
      | (a, some b) =>
        if Text.isNumeral a && Text.isNumeral b then do
          return .days (← number? a) (← number? b) step
        else some (.verbatim cs)
      | (_, none) =>
        if Text.isNumeral base then do
          let first ← number? base
          return .days first (if after.isSome then 6 else first) step
        else some (.verbatim cs)

/-- Steps are positive and ranges ascend within 0 to 7. -/
def DayItem.isValid : DayItem → Bool
  | .days first last step => step ≠ 0 && first ≤ 7 && last ≤ 7 && first ≤ last
  | .verbatim _ => true

/-- The item names a day of the week, 0 for Sunday. -/
def DayItem.selects (day : Nat) : DayItem → Bool
  | .days first last step =>
    (List.range 8).any fun n =>
      n % 7 = day && first ≤ n && n ≤ last && (n - first) % step = 0
  | .verbatim _ => false

def DayItem.verbatim? : DayItem → Option String
  | .verbatim text => some (String.ofList text)
  | _ => none

/-- A weekday field with names for numbers: the selected days from Sunday to Saturday, then the
items that were not written in numbers. -/
def weekdays? (field : List Char) : Option (List Char) :=
  if field = ['*'] ∨ field = ['?'] then some field
  else do
    let items ← (Text.splitOn ',' field).mapM item?
    if !items.all (·.isValid) then none
    let days := (dayNames.zipIdx.filter fun (_, n) => items.any (·.selects n)).map (·.1)
    return (",".intercalate (days ++ items.filterMap (·.verbatim?))).toList

/-- The schedule of five fields: it fires at second 0, in every year. -/
def ofFields? (minute hour day month weekday : List Char) : Option Schedule := do
  let weekday ← weekdays? weekday
  let blank := [' ']
  Schedule.ofFields? ('0' :: blank ++ minute ++ blank ++ hour ++ blank ++ day ++ blank ++ month ++
    blank ++ weekday ++ blank ++ ['*'])

end Cadence.Schedule.Crontab
