import Cadence.Client.Backoff
import Mathlib.Data.List.Induction

/-!
# Backing off follows the history of a path

The books of a backoff state are written by three calls. What they say of a path depends on the
calls for that path alone, and of these on the ones since it was last cleared. A clone of a state
has settings of its own and shares the books.
-/

namespace Cadence

namespace Backoff

/-- A call that writes to the books. -/
inductive Call
  | limited (path : String) (now : Instant) (jitter : Nat)
  | succeeded (path : String)
  | reset
  deriving DecidableEq, Repr

namespace Call

/-- The call takes the entry of a normalized path out. -/
def clears (key : String) : Call → Bool
  | limited _ _ _ => false
  | succeeded path => normalizePath path = key
  | reset => true

/-- The instant and the jitter of a call that tells of one more time for a normalized path. -/
def limited? (key : String) : Call → Option (Instant × Nat)
  | limited path now jitter => if normalizePath path = key then some (now, jitter) else none
  | succeeded _ => none
  | reset => none

def touches (key : String) (c : Call) : Bool := c.clears key || (c.limited? key).isSome

end Call

/-- The times that a normalized path was rate limited since it was last cleared. -/
def limitedSince (key : String) (history : List Call) : List (Instant × Nat) :=
  (history.reverse.takeWhile (!·.clears key)).reverse.filterMap (·.limited? key)

/-- The entry that belongs to the times in a row: none for no time, else the window of the last one,
which depends on how many there were. -/
def entryOf (config : BackoffSettings) (times : List (Instant × Nat)) : Option Entry :=
  times.getLast?.map fun (now, jitter) =>
    let count := min times.length Text.u32Max
    ⟨count, now.addMillis? (window config count jitter)⟩

theorem limitedSince_append (key : String) (history : List Call) (c : Call) :
    limitedSince key (history ++ [c]) =
      if c.clears key then [] else limitedSince key history ++ (c.limited? key).toList := by
  unfold limitedSince
  rw [List.reverse_append, List.reverse_singleton, List.singleton_append, List.takeWhile_cons]
  cases c.clears key with
  | true => rfl
  | false =>
    rw [if_pos (by rfl), if_neg Bool.false_ne_true, List.reverse_cons, List.filterMap_append]
    cases hlimited : c.limited? key <;> simp [hlimited]

theorem entryOf_append (config : BackoffSettings) (times : List (Instant × Nat)) (now : Instant)
    (jitter : Nat) :
    entryOf config (times ++ [(now, jitter)]) =
      let count := min (times.length + 1) Text.u32Max
      some ⟨count, now.addMillis? (window config count jitter)⟩ := by
  unfold entryOf
  rw [List.getLast?_concat, List.length_append, List.length_singleton]
  rfl

theorem count_entryOf (config : BackoffSettings) (times : List (Instant × Nat)) :
    ((entryOf config times).map (·.count)).getD 0 = min times.length Text.u32Max := by
  cases times.eq_nil_or_concat with
  | inl h => simp [h, entryOf]
  | inr h =>
    obtain ⟨before, ⟨now, jitter⟩, rfl⟩ := h
    rw [List.concat_eq_append, entryOf_append, List.length_append, List.length_singleton]
    rfl

end Backoff

open Backoff

/-! ## One state -/

namespace BackoffState

def apply (s : BackoffState) : Call → BackoffState
  | .limited path now jitter => (s.recordLimited path now jitter).1
  | .succeeded path => s.recordSuccess path
  | .reset => s.reset

def run (s : BackoffState) (calls : List Call) : BackoffState := calls.foldl apply s

theorem run_append (s : BackoffState) (xs ys : List Call) :
    s.run (xs ++ ys) = (s.run xs).run ys := List.foldl_append

@[simp] theorem config_apply (s : BackoffState) (c : Call) : (s.apply c).config = s.config := by
  cases c <;> rfl

@[simp] theorem config_run (s : BackoffState) (calls : List Call) :
    (s.run calls).config = s.config := by
  induction calls generalizing s with
  | nil => rfl
  | cons c rest ih => exact (ih (s.apply c)).trans (config_apply s c)

@[simp] theorem find?_new (config : BackoffSettings) (key : String) :
    (new config).find? key = none := rfl

@[simp] theorem find?_reset (s : BackoffState) (key : String) : s.reset.find? key = none := rfl

theorem find?_apply (s : BackoffState) (c : Call) (key : String) :
    (s.apply c).find? key =
      if c.clears key then none
      else match c.limited? key with
        | some (now, jitter) =>
          let count := min (((s.find? key).map (·.count)).getD 0 + 1) Text.u32Max
          some ⟨count, now.addMillis? (window s.config count jitter)⟩
        | none => s.find? key := by
  cases c with
  | limited path now jitter =>
    unfold apply recordLimited count
    rw [find?_put]
    by_cases hkey : key = normalizePath path
    · simp [Call.clears, Call.limited?, hkey]
    · simp [Call.clears, Call.limited?, hkey, Ne.symm hkey]
  | succeeded path =>
    unfold apply recordSuccess
    rw [find?_erase]
    by_cases hkey : key = normalizePath path
    · simp [Call.clears, hkey]
    · simp [Call.clears, Call.limited?, hkey, Ne.symm hkey]
  | reset => rfl

theorem find?_apply_of_not_touches {s : BackoffState} {c : Call} {key : String}
    (h : c.touches key = false) : (s.apply c).find? key = s.find? key := by
  unfold Call.touches at h
  obtain ⟨hclears, hlimited⟩ := Bool.or_eq_false_iff.mp h
  rw [find?_apply, hclears, Option.isSome_eq_false_iff.mp hlimited |> Option.isNone_iff_eq_none.mp]
  rfl

/-- After any calls the entry of a path is that of the times since it was last cleared. -/
theorem find?_run (config : BackoffSettings) (history : List Call) (key : String) :
    ((new config).run history).find? key = entryOf config (limitedSince key history) := by
  -- The last call either clears the path, or adds one time, or leaves all as it was.
  induction history using List.reverseRecOn with
  | nil => rfl
  | append_singleton history c ih =>
    have hconfig : ((new config).run history).config = config := config_run _ _
    rw [run_append, limitedSince_append]
    change (((new config).run history).apply c).find? key = _
    rw [find?_apply, ih, count_entryOf, hconfig]
    cases c.clears key with
    | true => rfl
    | false =>
      cases c.limited? key with
      | none => simp
      | some time =>
        obtain ⟨now, jitter⟩ := time
        have hcount : min (min (limitedSince key history).length Text.u32Max + 1) Text.u32Max =
            min ((limitedSince key history).length + 1) Text.u32Max := by omega
        simp only [Bool.false_eq_true, if_false, Option.toList_some, entryOf_append, hcount]

end BackoffState

/-! ## Clones -/

/-- A state and its clones: the books that they share, and the settings of each. -/
structure SharedBackoff where
  entries : List (String × Entry)
  configs : List BackoffSettings

namespace SharedBackoff

inductive Deed
  | clone
  | call (c : Call)

def new (config : BackoffSettings) : SharedBackoff := ⟨[], [config]⟩

/-- The clones, each as the state that it shows. -/
def clones (f : SharedBackoff) : List BackoffState := f.configs.map fun config => ⟨config, f.entries⟩

/-- The clone with a number does something. -/
def step (f : SharedBackoff) (i : Nat) (d : Deed) : SharedBackoff :=
  match f.clones[i]?, d with
  | none, _ => f
  | some s, .clone => { f with configs := f.configs ++ [s.config] }
  | some s, .call c => { f with entries := (s.apply c).entries }

/-- The call that the clone with a number makes, if there is such a clone. -/
def call? (f : SharedBackoff) (i : Nat) : Deed → Option Call
  | .clone => none
  | .call c => f.clones[i]?.map fun _ => c

def run (f : SharedBackoff) : List (Nat × Deed) → SharedBackoff
  | [] => f
  | (i, d) :: rest => (f.step i d).run rest

def log (f : SharedBackoff) : List (Nat × Deed) → List Call
  | [] => []
  | (i, d) :: rest => (f.call? i d).toList ++ (f.step i d).log rest

variable {f : SharedBackoff} {config : BackoffSettings} {s : BackoffState}

end SharedBackoff

end Cadence
