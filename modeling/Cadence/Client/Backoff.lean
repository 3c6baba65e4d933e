import Cadence.Settings.Basic
import Cadence.Text.Digits
import Cadence.Time.Instant

/-!
# Backing off

After a path was rate limited it is left alone for a while. Each further time in a row doubles the
while, up to a limit; from a threshold on it is doubled once more, up to a second limit. Any other
answer clears the path.
-/

namespace Cadence.Backoff

/-! ## The window -/

/-- The least of a number and the greatest one of 64 bits. -/
def clamp64 (n : Nat) : Nat := min n Text.u64Max

/-- The factor of the `count`-th time in a row: a power of two, as far as 64 bits hold it. -/
def factor (count : Nat) : Nat := if count - 1 < 64 then 1 <<< (count - 1) else Text.u64Max

/-- The milliseconds to wait after the `count`-th time in a row. Every step keeps to 64 bits. -/
def window (config : BackoffSettings) (count jitter : Nat) : Nat :=
  let delay := min (clamp64 (clamp64 (config.baseDelay * factor count) + jitter)) config.maxDelay
  if config.extendedThreshold ≤ count then min (clamp64 (delay * 2)) config.extendedMax else delay

/-! ## The state -/

/-- A path without its query and fragment. -/
def normalizePath (path : String) : String :=
  String.ofList (path.toList.takeWhile fun c => c ≠ '?' && c ≠ '#')

structure Entry where
  /-- how many times in a row the path was rate limited -/
  count : Nat
  coolingUntil : Option Instant
  deriving DecidableEq, Repr

end Backoff

/-- The entries of the paths that were rate limited last. -/
structure BackoffState where
  config : BackoffSettings
  entries : List (String × Backoff.Entry)
  deriving Repr

namespace BackoffState

open Backoff

def new (config : BackoffSettings) : BackoffState := ⟨config, []⟩

/-- The entry of a normalized path. -/
def find? (s : BackoffState) (key : String) : Option Entry := s.entries.lookup key

def erase (s : BackoffState) (key : String) : BackoffState :=
  { s with entries := s.entries.filter (·.1 != key) }

def put (s : BackoffState) (key : String) (e : Entry) : BackoffState :=
  { s with entries := (key, e) :: (s.erase key).entries }

theorem lookup_filter_ne (key other : String) (es : List (String × Entry)) :
    (es.filter (·.1 != key)).lookup other = if other = key then none else es.lookup other := by
  induction es with
  | nil => simp
  | cons e es ih =>
    obtain ⟨k, v⟩ := e
    grind [List.filter]

@[simp] theorem find?_erase (s : BackoffState) (key other : String) :
    (s.erase key).find? other = if other = key then none else s.find? other :=
  lookup_filter_ne key other s.entries

@[simp] theorem find?_put (s : BackoffState) (key other : String) (e : Entry) :
    (s.put key e).find? other = if other = key then some e else s.find? other := by
  have := lookup_filter_ne key other s.entries
  simp only [find?, put, erase] at *
  grind

/-- The end of the cooling of a path, while it lasts. -/
def cooling? (s : BackoffState) (path : String) (now : Instant) : Option Instant :=
  ((s.find? (normalizePath path)).bind (·.coolingUntil)).filter fun u => now < u

def count (s : BackoffState) (path : String) : Nat :=
  ((s.find? (normalizePath path)).map (·.count)).getD 0

/-- The path was rate limited: one more time in a row, and a window from `now` on. An end beyond the
range of instants is none. -/
def recordLimited (s : BackoffState) (path : String) (now : Instant) (jitter : Nat) :
    BackoffState × Nat :=
  let n := min (s.count path + 1) Text.u32Max
  let w := window s.config n jitter
  (s.put (normalizePath path) ⟨n, now.addMillis? w⟩, w)

def recordSuccess (s : BackoffState) (path : String) : BackoffState := s.erase (normalizePath path)

def reset (s : BackoffState) : BackoffState := { s with entries := [] }

end BackoffState

end Cadence
