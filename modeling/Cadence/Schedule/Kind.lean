import Cadence.Schedule.Crontab
import Cadence.Schedule.Next

/-!
# Kinds of schedule

How the expression of a job is read: a keyword for an interval, a keyword for midnight, a schedule
of five, six or seven fields, and a fallback interval for all other texts.
-/

namespace Cadence

inductive ScheduleKind
  | interval (seconds : Nat)
  | daily
  | cron (schedule : Schedule)
  | fallback
  deriving DecidableEq, Repr

namespace ScheduleKind

def fallbackSeconds : Nat := 5 * 60

/-- The keywords, and what they mean. -/
def keywords : List (String × ScheduleKind) :=
  [("every_5_minutes", .interval 300), ("every_15_minutes", .interval 900),
    ("every_hour", .interval 3600), ("daily", .daily)]

/-- The schedule of five fields, or of six or seven; the text is without blanks at its ends. -/
def cronOf? (cs : List Char) : Option Schedule :=
  match Text.pieces cs with
  | [minute, hour, day, month, weekday] => Schedule.Crontab.ofFields? minute hour day month weekday
  | [_, _, _, _, _, _] => Schedule.read? (String.ofList cs)
  | [_, _, _, _, _, _, _] => Schedule.read? (String.ofList cs)
  | _ => none

def ofExpression (expression : String) : ScheduleKind :=
  let cs := Text.trim expression.toList
  match keywords.lookup (String.ofList cs) with
  | some kind => kind
  | none =>
    match cronOf? cs with
    | some schedule => .cron schedule
    | none => .fallback

/-- The next instant after another one. -/
def next? (kind : ScheduleKind) (t : Instant) : Option Instant :=
  match kind with
  | .interval seconds => t.addSeconds? seconds
  | .daily => Instant.midnight? (t.day + 1)
  | .cron schedule => schedule.next? t
  | .fallback => t.addSeconds? fallbackSeconds

end ScheduleKind

/-- The next run of an expression after an instant. -/
def nextExecution (expression : String) (t : Instant) : Option Instant :=
  (ScheduleKind.ofExpression expression).next? t

/-- The kind of an expression, unless only the fallback is left for it. -/
def ScheduleKind.ofExpression? (expression : String) : Option ScheduleKind :=
  match ofExpression expression with
  | .fallback => none
  | kind => some kind

end Cadence
