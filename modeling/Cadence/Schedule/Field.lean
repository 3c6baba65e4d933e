import Cadence.Text.Basic

/-!
# Fields of a schedule

A schedule has one field for each component of a time. A field is a list of progressions, and
denotes the numbers of all of them.
-/

namespace Cadence.Schedule

/-- The components of a time that a schedule restricts. -/
inductive Component
  | second | minute | hour | dayOfMonth | month | weekday | year
  deriving DecidableEq, Repr

namespace Component

/-- The least and the greatest number of a component; days of the week count from 1 for Sunday. -/
def low : Component → Nat
  | second | minute | hour => 0
  | dayOfMonth | month | weekday => 1
  | year => 1970

def high : Component → Nat
  | second | minute => 59
  | hour => 23
  | dayOfMonth => 31
  | month => 12
  | weekday => 7
  | year => 2100

/-- The components whose fields may be a question mark, which says the same as a star. -/
def allowsAny : Component → Bool
  | dayOfMonth | weekday => true
  | _ => false

def monthNames : List (String × Nat) :=
  [("jan", 1), ("january", 1), ("feb", 2), ("february", 2), ("mar", 3), ("march", 3), ("apr", 4),
    ("april", 4), ("may", 5), ("jun", 6), ("june", 6), ("jul", 7), ("july", 7), ("aug", 8),
    ("august", 8), ("sep", 9), ("september", 9), ("oct", 10), ("october", 10), ("nov", 11),
    ("november", 11), ("dec", 12), ("december", 12)]

def weekdayNames : List (String × Nat) :=
  [("sun", 1), ("sunday", 1), ("mon", 2), ("monday", 2), ("tue", 3), ("tues", 3), ("tuesday", 3),
    ("wed", 4), ("wednesday", 4), ("thu", 5), ("thurs", 5), ("thursday", 5), ("fri", 6),
    ("friday", 6), ("sat", 7), ("saturday", 7)]

def names : Component → List (String × Nat)
  | month => monthNames
  | weekday => weekdayNames
  | _ => []

/-- The number of a name, in any case. -/
def named? (c : Component) (name : List Char) : Option Nat :=
  c.names.lookup (String.ofList (name.map Char.toLower))

/-- The number is one of the component's. -/
def admits (c : Component) (n : Nat) : Bool := c.low ≤ n && n ≤ c.high

end Component

/-- The numbers from `first` to `last` in steps. -/
structure Progression where
  first : Nat
  last : Nat
  step : Nat
  deriving DecidableEq, Repr

namespace Progression

def mem (p : Progression) (n : Nat) : Bool :=
  p.first ≤ n && n ≤ p.last && (n - p.first) % p.step = 0

theorem mem_iff {p : Progression} {n : Nat} :
    p.mem n = true ↔ ∃ k, n = p.first + k * p.step ∧ n ≤ p.last := by
  simp only [mem, Bool.and_eq_true, decide_eq_true_eq]
  constructor
  · rintro ⟨⟨h₁, h₂⟩, h₃⟩
    refine ⟨(n - p.first) / p.step, ?_, h₂⟩
    rw [Nat.div_mul_cancel (Nat.dvd_of_mod_eq_zero h₃)]
    omega
  · rintro ⟨k, rfl, h⟩
    exact ⟨⟨by omega, h⟩, by simp⟩

/-- All numbers of a component. -/
def all (c : Component) : Progression := ⟨c.low, c.high, 1⟩

end Progression

/-- The numbers that a component may have. -/
abbrev Field := List Progression

def Field.mem (f : Field) (n : Nat) : Bool := List.any f (·.mem n)

end Cadence.Schedule
