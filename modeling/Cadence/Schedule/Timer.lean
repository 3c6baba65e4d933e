import Cadence.Job.Basic
import Cadence.Text.Basic
import Cadence.Text.Digits

/-!
# Timer expressions

The timer that polls from within the service has a grammar of its own. Fields are cut at blanks:
seconds, minutes, hours, days of the month, months, weekdays and optional years. Weekdays count from
0 for Sunday, and 7 is Sunday as well. Days and months may be named by three letters. In the fields
of days there are marks for the last one, for the working day next to one, and for the first to the
fifth weekday of a month.
-/

namespace Cadence.Schedule.Timer

/-- What a field may hold. -/
structure FieldRule where
  low : Nat
  high : Nat
  /-- a question mark says the same as a star -/
  any : Bool := false
  /-- the last one: `L` -/
  last : Bool := false
  /-- the working day next to one: `15W` -/
  workday : Bool := false
  /-- the one of that number in a month: `2#1`, or `2#L` for the last -/
  nth : Bool := false
  deriving DecidableEq, Repr

def rules : List FieldRule := [
  { low := 0, high := 59 },
  { low := 0, high := 59 },
  { low := 0, high := 23 },
  { low := 1, high := 31, any := true, last := true, workday := true },
  { low := 1, high := 12 },
  { low := 0, high := 7, any := true, last := true, nth := true },
  { low := 1, high := 9999 }]

/-! ## Names -/

def weekdays : List (String × String) :=
  [("SUN", "0"), ("MON", "1"), ("TUE", "2"), ("WED", "3"), ("THU", "4"), ("FRI", "5"), ("SAT", "6")]

def months : List (String × String) :=
  [("JAN", "1"), ("FEB", "2"), ("MAR", "3"), ("APR", "4"), ("MAY", "5"), ("JUN", "6"), ("JUL", "7"),
    ("AUG", "8"), ("SEP", "9"), ("OCT", "10"), ("NOV", "11"), ("DEC", "12")]

/-- The characters with names of three letters replaced by their numbers, wherever they stand. -/
def numbered (names : List (String × String)) : List Char → List Char
  | a :: b :: c :: rest =>
    match names.lookup (String.ofList [a, b, c]) with
    | some n => n.toList ++ numbered names rest
    | none => a :: numbered names (b :: c :: rest)
  | cs => cs

/-- The expressions that have a name, without their seconds. -/
def nicknames : List (String × String) :=
  [("@YEARLY", "0 0 1 1 *"), ("@ANNUALLY", "0 0 1 1 *"), ("@MONTHLY", "0 0 1 * *"),
    ("@WEEKLY", "0 0 * * 0"), ("@DAILY", "0 0 * * *"), ("@HOURLY", "0 * * * *")]

/-! ## Fields -/

/-- A number of the field. -/
def number? (r : FieldRule) (cs : List Char) : Option Nat :=
  (Text.unsigned? r.high cs).filter (r.low ≤ ·)

/-- The numbers of a range are both the field's, and in order. -/
def isRange (r : FieldRule) (cs : List Char) : Bool :=
  match Text.splitOn '-' cs with
  | [a, b] => match number? r a, number? r b with
    | some a, some b => a ≤ b
    | _, _ => false
  | _ => false

/-- A star, a range or a number, and a step above zero. -/
def isStepped (r : FieldRule) (cs : List Char) : Bool :=
  match Text.splitOn '/' cs with
  | [base, step] =>
    (base = ['*'] || isRange r base || (number? r base).isSome) &&
      (Text.unsigned? Text.u16Max step).any (0 < ·)
  | _ => false

/-- A number, or one with the place of the day in its month. -/
def isNumber (r : FieldRule) (cs : List Char) : Bool :=
  match Text.cut '#' cs with
  | (day, some place) =>
    r.nth && (number? r day).isSome &&
      (place = ['L'] || (Text.unsigned? 5 place).any (0 < ·))
  | (day, none) =>
    if day.getLast? = some 'L' then r.nth && (number? r day.dropLast).isSome
    else (number? r day).isSome

def isItem (r : FieldRule) (cs : List Char) : Bool :=
  if cs.contains '/' then isStepped r cs
  else if cs.contains '-' then isRange r cs
  else if cs.getLast? = some 'W' then r.workday && (number? r cs.dropLast).isSome
  else if cs = ['L'] then r.last
  else isNumber r cs

/-- A star, or items between commas; nothing between two commas is no item. -/
def isField (r : FieldRule) (cs : List Char) : Bool :=
  let cs := if r.any then cs.map fun c => if c = '?' then '*' else c else cs
  cs = ['*'] || (Text.splitOn ',' cs).all fun item => item.isEmpty || isItem r item

/-! ## Expressions -/

/-- The fields of an expression, in numbers. -/
def fields (s : String) : List (List Char) :=
  let word := (Text.trim s.toList).map Text.upperChar
  let cs := match nicknames.lookup (String.ofList word) with
    | some expression => '0' :: ' ' :: expression.toList
    | none => word
  Text.pieces (numbered months (numbered weekdays cs))

/-- The timer can go by the expression. -/
def isExpression (s : String) : Bool :=
  let fields := fields s
  (fields.length = 6 || fields.length = 7) &&
    (fields.zip rules).all fun (cs, r) => isField r cs

/-- Starts the timer. -/
def start (schedule : String) : Except JobError Unit :=
  if isExpression schedule then .ok () else .error (.invalidSchedule schedule)

end Cadence.Schedule.Timer
