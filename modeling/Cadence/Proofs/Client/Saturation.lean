import Cadence.Proofs.Client.Windows
import Cadence.Proofs.Settings.Partial

/-!
# Windows lose nothing to their words

A window is worked out in words of 64 bits, where every operation stops at the greatest one. A stop
on the way comes to the same as one stop at the end, and the limits of settings are words, so the
formula over numbers without a bound gives the same window.
-/

namespace Cadence

namespace Backoff

/-! ## The formula -/

/-- The delay over numbers without a bound. -/
def exactDelay (config : BackoffSettings) (count jitter : Nat) : Nat :=
  min (config.baseDelay * 2 ^ (max count 1 - 1) + jitter) config.maxDelay

/-- The window over numbers without a bound. -/
def exactWindow (config : BackoffSettings) (count jitter : Nat) : Nat :=
  let d := exactDelay config count jitter
  if config.extendedThreshold ≤ count then min (2 * d) config.extendedMax else d

/-! ## Stops at the greatest word -/

theorem clamp64_clamp64_add (m n : Nat) : clamp64 (clamp64 m + n) = clamp64 (m + n) := by
  unfold clamp64
  omega

theorem clamp64_mul_clamp64 (m n : Nat) : clamp64 (m * clamp64 n) = clamp64 (m * n) := by
  unfold clamp64
  rcases Nat.le_total n Text.u64Max with hn | hn
  · rw [Nat.min_eq_left hn]
  rw [Nat.min_eq_right hn]
  rcases Nat.eq_zero_or_pos m with rfl | hm
  · rw [Nat.zero_mul, Nat.zero_mul]
  · have hfull : Text.u64Max ≤ m * Text.u64Max := Nat.le_mul_of_pos_left _ hm
    rw [Nat.min_eq_right hfull, Nat.min_eq_right (hfull.trans (Nat.mul_le_mul_left m hn))]

theorem min_clamp64 {limit : Nat} (h : limit ≤ Text.u64Max) (n : Nat) :
    min (clamp64 n) limit = min n limit := by
  unfold clamp64
  omega

theorem factor_eq_clamp64 (count : Nat) : factor count = clamp64 (2 ^ (max count 1 - 1)) := by
  by_cases hbits : count < 65
  · have hexponent : max count 1 - 1 = count - 1 := by omega
    have hfits : 2 ^ (count - 1) ≤ Text.u64Max :=
      calc 2 ^ (count - 1) ≤ 2 ^ 63 := Nat.pow_le_pow_right (by decide) (by omega)
        _ ≤ Text.u64Max := by decide
    rw [factor_of_lt hbits, hexponent]
    exact (Nat.min_eq_left hfits).symm
  · have hfull : Text.u64Max ≤ 2 ^ (max count 1 - 1) :=
      calc Text.u64Max ≤ 2 ^ 64 := by decide
        _ ≤ 2 ^ (max count 1 - 1) := Nat.pow_le_pow_right (by decide) (by omega)
    rw [factor_of_le (by omega)]
    exact (Nat.min_eq_right hfull).symm

/-! ## Windows by their counts -/

variable {config : BackoffSettings}

theorem delay_eq_exactDelay (hmax : config.maxDelay ≤ Text.u64Max) (count jitter : Nat) :
    delay config count jitter = exactDelay config count jitter :=
  let base := config.baseDelay
  let power := 2 ^ (max count 1 - 1)
  calc delay config count jitter
      = min (clamp64 (clamp64 (base * factor count) + jitter)) config.maxDelay := rfl
    _ = min (clamp64 (clamp64 (base * clamp64 power) + jitter)) config.maxDelay := by
        rw [factor_eq_clamp64]
    _ = min (clamp64 (clamp64 (base * power) + jitter)) config.maxDelay := by
        rw [clamp64_mul_clamp64]
    _ = min (clamp64 (base * power + jitter)) config.maxDelay := by rw [clamp64_clamp64_add]
    _ = exactDelay config count jitter := min_clamp64 hmax _

theorem window_eq_exactWindow (hrange : config.InRange) (count jitter : Nat) :
    window config count jitter = exactWindow config count jitter := by
  rw [window_eq_delay, delay_eq_exactDelay hrange.maxDelay, min_clamp64 hrange.extendedMax,
    Nat.mul_comm]
  rfl

/-- Without a base delay nothing grows, and from the threshold on the jitter counts twice. -/
example : window { baseDelay := 0 } 4294967295 7 = 14 := by decide

theorem window_min (hthreshold : config.extendedThreshold ≤ Text.u32Max) (n jitter : Nat) :
    window config (min n Text.u32Max) jitter = window config n jitter := by
  by_cases hn : n ≤ Text.u32Max
  · rw [Nat.min_eq_left hn]
  have hbits : 65 ≤ Text.u32Max := by decide
  rw [Nat.min_eq_right (by omega), window_eq_delay, window_eq_delay, if_pos hthreshold,
    if_pos (by omega)]
  unfold delay
  rw [factor_of_le hbits, factor_of_le (by omega)]

end Backoff

open Backoff

/-- Whatever the settings, in order or not, the window is the one of the formula over numbers
without a bound, for each count and each jitter. So is each window that a state hands out, by the
number of times in a row itself, though the state counts no further than 32 bits. -/
theorem windows_are_exact {config : BackoffSettings} (hrange : config.InRange) :
    (∀ count jitter, window config count jitter = exactWindow config count jitter) ∧
    ∀ history path now jitter,
      (((BackoffState.new config).run history).recordLimited path now jitter).2 =
        exactWindow config ((limitedSince (normalizePath path) history).length + 1) jitter := by
  refine ⟨window_eq_exactWindow hrange, fun history path now jitter => ?_⟩
  unfold BackoffState.recordLimited
  rw [BackoffState.config_run, BackoffState.count_run]
  generalize (limitedSince (normalizePath path) history).length = times
  -- The counter may have stopped before, and it may stop now.
  have hcount : min (min times Text.u32Max + 1) Text.u32Max = min (times + 1) Text.u32Max := by
    omega
  calc window config (min (min times Text.u32Max + 1) Text.u32Max) jitter
      = window config (min (times + 1) Text.u32Max) jitter := by rw [hcount]
    _ = window config (times + 1) jitter := window_min hrange.extendedThreshold _ _
    _ = exactWindow config (times + 1) jitter := window_eq_exactWindow hrange _ _

/-- Settings that are not in order, with the greatest base delay and the greatest limit: the shift,
the product, the sum and the doubling all stop, and one less than the greatest word is left. -/
theorem windows_are_exact_at_greatest_words :
    let config : BackoffSettings :=
      { baseDelay := Text.u64Max, maxDelay := Text.u64Max, jitter := Text.u64Max
        extendedThreshold := 2, extendedMax := Text.u64Max - 1 }
    let history : List Call := [.limited "/a" .epoch 0, .succeeded "/b"]
    config.InRange ∧ config.validate ≠ .ok () ∧
      window config 65 Text.u64Max = exactWindow config 65 Text.u64Max ∧
      exactWindow config 65 Text.u64Max = Text.u64Max - 1 ∧
      (((BackoffState.new config).run history).recordLimited "/a?page=1" .epoch 7).2 =
        exactWindow config 2 7 := by
  intro config history
  have hrange : config.InRange := ⟨by decide, by decide, by decide, by decide, by decide⟩
  obtain ⟨hwindow, hstate⟩ := windows_are_exact hrange
  exact ⟨hrange, by decide, hwindow 65 Text.u64Max, by decide,
    hstate history "/a?page=1" .epoch 7⟩

end Cadence
