import Cadence.Schedule.Expression
import Cadence.Time.Instant

/-!
# The next time of a schedule

A schedule's next time after an instant is the least whole second at least one second later whose
components are all in the schedule's fields.
-/

namespace Cadence.Schedule

/-- The least number of `count` numbers from `start` on with a property. -/
def leastFrom? (p : Nat → Bool) (start : Nat) : Nat → Option Nat
  | 0 => none
  | count + 1 => if p start then some start else leastFrom? p (start + 1) count

theorem leastFrom?_eq_none_iff {p : Nat → Bool} {start count : Nat} :
    leastFrom? p start count = none ↔ ∀ n, start ≤ n → n < start + count → p n = false := by
  induction count generalizing start with
  | zero => simp only [leastFrom?, true_iff]; omega
  | succ count ih =>
    simp only [leastFrom?]
    split
    · rename_i h
      simp only [reduceCtorEq, false_iff]
      intro hall
      simp [hall start (by omega) (by omega)] at h
    · rename_i h
      rw [ih]
      constructor
      · intro hall n h₁ h₂
        rcases Nat.eq_or_lt_of_le h₁ with rfl | h₁
        · simpa using h
        · exact hall n (by omega) (by omega)
      · intro hall n h₁ h₂
        exact hall n (by omega) (by omega)

theorem leastFrom?_eq_some_iff {p : Nat → Bool} {start count m : Nat} :
    leastFrom? p start count = some m ↔
      (start ≤ m ∧ m < start + count ∧ p m = true) ∧ ∀ n, start ≤ n → n < m → p n = false := by
  induction count generalizing start with
  | zero => simp only [leastFrom?, reduceCtorEq, false_iff]; omega
  | succ count ih =>
    simp only [leastFrom?]
    split
    · rename_i h
      constructor
      · rintro ⟨rfl⟩
        exact ⟨⟨by omega, by omega, h⟩, fun n _ _ => by omega⟩
      · rintro ⟨⟨h₁, _, _⟩, hmin⟩
        by_cases hs : start = m
        · rw [hs]
        · simp [hmin start (by omega) (by omega)] at h
    · rename_i h
      rw [ih]
      constructor
      · rintro ⟨⟨h₁, h₂, h₃⟩, hmin⟩
        refine ⟨⟨by omega, by omega, h₃⟩, fun n hn hm => ?_⟩
        by_cases hs : n = start
        · simpa [hs] using h
        · exact hmin n (by omega) hm
      · rintro ⟨⟨h₁, h₂, h₃⟩, hmin⟩
        have : start ≠ m := by rintro rfl; exact h h₃
        exact ⟨⟨by omega, by omega, h₃⟩, fun n hn hm => hmin n (by omega) hm⟩

/-- The date of a day is in the fields for days, months, weekdays and years. -/
def admitsDay (s : Schedule) (day : Int) : Bool :=
  let d := Date.ofDayNumber day
  s.months.mem d.month && s.daysOfMonth.mem d.day &&
    s.weekdays.mem (Date.weekday day + 1) && s.years.mem d.year.toNat

/-- The second of the day is in the fields for hours, minutes and seconds. -/
def admitsSecond (s : Schedule) (second : Nat) : Bool :=
  s.hours.mem (second / 3600) && s.minutes.mem (second / 60 % 60) && s.seconds.mem (second % 60)

/-- The days from the first day of 1970 to the last day of 2100. -/
def dayCount : Nat := 47847

/-- The least admitted second from `second` of the day `day` on, until the end of the year 2100. -/
def firstFrom? (s : Schedule) (day second : Nat) : Option (Nat × Nat) :=
  let today :=
    if s.admitsDay day then leastFrom? s.admitsSecond second (86400 - second) else none
  match today with
  | some n => some (day, n)
  | none => do
    let next ← leastFrom? (fun n => s.admitsDay n) (day + 1) (dayCount - (day + 1))
    return (next, ← leastFrom? s.admitsSecond 0 86400)

/-- The schedule's next time after an instant. Years before the year 0 have none. -/
def next? (s : Schedule) (t : Instant) : Option Instant := do
  let start ← t.addSeconds? 1
  if (Date.ofDayNumber start.day).year < 0 then none
  let (day, second) ←
    if start.day < 0 then s.firstFrom? 0 0
    else if start.day.toNat < dayCount then s.firstFrom? start.day.toNat start.second
    else none
  Instant.of? day second 0

end Cadence.Schedule
