import Cadence.Time.Date

/-!
# Instants

Points of universal time with nanoseconds, from the first day of the year -262143 to the last one of
the year 262142. A leap second is the second half of a last second of a minute that lasts two:
there, and only there, `nano` reaches `10 ^ 9` and more.
-/

namespace Cadence

/-- The day numbers of the first and the last day. -/
def firstDay : Int := -96465292
def lastDay : Int := 95026236

example : Date.ofDayNumber firstDay = ⟨-262143, 1, 1⟩ := by decide
example : Date.ofDayNumber lastDay = ⟨262142, 12, 31⟩ := by decide

/-- A point of universal time. -/
structure Instant where
  day : Int
  second : Nat
  nano : Nat
  day_ge : firstDay ≤ day
  day_le : day ≤ lastDay
  second_lt : second < 86400
  nano_lt : nano < 1000000000 ∨ second % 60 = 59 ∧ nano < 2000000000
  deriving DecidableEq, Repr

namespace Instant

/-- The instant of a day, a second and a nanosecond, if there is one. -/
def of? (day : Int) (second nano : Nat) : Option Instant :=
  if h : (firstDay ≤ day ∧ day ≤ lastDay) ∧ second < 86400 ∧
      (nano < 1000000000 ∨ second % 60 = 59 ∧ nano < 2000000000) then
    some ⟨day, second, nano, h.1.1, h.1.2, h.2.1, h.2.2⟩
  else none

def epoch : Instant := ⟨0, 0, 0, by decide, by decide, by decide, by decide⟩

instance : Inhabited Instant := ⟨epoch⟩

/-- Earlier: by day, then by second, then by nanosecond. -/
def lt (s t : Instant) : Prop :=
  s.day < t.day ∨ s.day = t.day ∧ (s.second < t.second ∨ s.second = t.second ∧ s.nano < t.nano)

instance : LT Instant := ⟨lt⟩
instance : LE Instant := ⟨fun s t => ¬ t < s⟩

instance (s t : Instant) : Decidable (s < t) := by
  change Decidable (lt s t)
  unfold lt
  infer_instance

instance (s t : Instant) : Decidable (s ≤ t) := by
  change Decidable (¬ t < s)
  infer_instance

theorem lt_iff {s t : Instant} : s < t ↔
    s.day < t.day ∨ s.day = t.day ∧ (s.second < t.second ∨ s.second = t.second ∧ s.nano < t.nano) :=
  Iff.rfl

theorem le_iff {s t : Instant} : s ≤ t ↔
    s.day < t.day ∨ s.day = t.day ∧ (s.second < t.second ∨ s.second = t.second ∧ s.nano ≤ t.nano) := by
  change ¬ lt t s ↔ _
  unfold lt
  omega

theorem le_total (s t : Instant) : s ≤ t ∨ t ≤ s := by
  simp only [le_iff]
  omega

theorem le_trans {s t u : Instant} (h : s ≤ t) (k : t ≤ u) : s ≤ u := by
  simp only [le_iff] at *
  omega

theorem le_antisymm {s t : Instant} (h : s ≤ t) (k : t ≤ s) : s = t := by
  simp only [le_iff] at *
  cases s
  cases t
  simp only [mk.injEq] at *
  omega

theorem not_le {s t : Instant} : ¬ s ≤ t ↔ t < s := by
  simp only [le_iff, lt_iff]
  omega

/-- In the second half of a last second that lasts two. -/
def isLeap (t : Instant) : Bool := 1000000000 ≤ t.nano

/-- The seconds from day 0 to the instant. A leap second counts with the one before it. -/
def unixSeconds (t : Instant) : Int := t.day * 86400 + t.second

/-- The start of the day `day`. -/
def midnight? (day : Int) : Option Instant := of? day 0 0

/-- The instant of a count of seconds and a fraction of a second. -/
def ofSeconds? (seconds : Int) (nano : Nat) : Option Instant :=
  of? (seconds / 86400) (seconds % 86400).toNat nano

/-- The instant `seconds` and `nanos` later, `nanos` below `10 ^ 9`. From inside a leap second a
step that stays in it only adds to its fraction; any other step counts from the second before it
ahead, and from the second after it back. -/
def add? (t : Instant) (seconds : Int) (nanos : Nat) : Option Instant :=
  if t.isLeap && seconds = 0 && decide (t.nano + nanos < 2000000000) then
    of? t.day t.second (t.nano + nanos)
  else
    let start := if t.isLeap && decide (seconds < 0) then t.unixSeconds + 1 else t.unixSeconds
    let nano : Nat := t.nano % 1000000000 + nanos
    ofSeconds? (start + seconds + (nano / 1000000000 : Nat)) (nano % 1000000000)

def addSeconds? (t : Instant) (seconds : Int) : Option Instant := t.add? seconds 0

def addMillis? (t : Instant) (millis : Nat) : Option Instant :=
  t.add? (millis / 1000 : Nat) (millis % 1000 * 1000000)

end Instant

end Cadence
