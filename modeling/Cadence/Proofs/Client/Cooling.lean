import Cadence.Proofs.Client.History
import Cadence.Proofs.Settings.Rules
import Cadence.Proofs.Time.Elapsed

/-!
# A rate limited path is cooling

From an answer that limits a path on, the path is put off for the window of that answer, whatever
came before. The end of the window may lie beyond the calendar; then there is no end, and the path
is not put off at all.
-/

namespace Cadence

namespace BackoffSettings

/-- The numbers have the sizes of their fields. -/
structure Fits (config : BackoffSettings) : Prop where
  extendedMax : config.extendedMax ≤ Text.u64Max
  extendedThreshold : config.extendedThreshold ≤ Text.u32Max

/-- The longest window. -/
def longest (config : BackoffSettings) : Nat := min (2 * config.maxDelay) config.extendedMax

end BackoffSettings

namespace Backoff

/-! ## Windows -/

variable {config : BackoffSettings}

theorem factor_pos (count : Nat) : 0 < factor count := by
  unfold factor
  split
  · rw [Nat.one_shiftLeft]
    exact Nat.two_pow_pos _
  · decide

theorem factor_of_le {count : Nat} (h : 65 ≤ count) : factor count = Text.u64Max :=
  if_neg (by omega)

theorem full_of_le (hbase : 0 < config.baseDelay) {count : Nat} (hcount : 65 ≤ count) :
    Text.u64Max ≤ config.baseDelay * factor count := by
  rw [factor_of_le hcount]
  exact Nat.le_mul_of_pos_left _ hbase

theorem window_bounds (hvalid : config.validate = .ok ()) (count jitter : Nat) :
    0 < window config count jitter ∧ window config count jitter ≤ config.longest := by
  obtain ⟨hbase, hmax, -, hextended⟩ := BackoffSettings.validate_eq_ok_iff.mp hvalid
  have hscaled : 0 < config.baseDelay * factor count := Nat.mul_pos hbase (factor_pos count)
  unfold window clamp64 BackoffSettings.longest
  generalize config.baseDelay * factor count = scaled at hscaled
  have hbits : 0 < Text.u64Max := by decide
  simp only
  split <;> omega

theorem window_eq_longest (hvalid : config.validate = .ok ()) (hfits : config.Fits) {count : Nat}
    (hcount : 65 ≤ count) (hthreshold : config.extendedThreshold ≤ count) (jitter : Nat) :
    window config count jitter = config.longest := by
  obtain ⟨hbase, hmax, -, hextended⟩ := BackoffSettings.validate_eq_ok_iff.mp hvalid
  have hbits := hfits.extendedMax
  have hscaled := full_of_le hbase hcount
  unfold window clamp64 BackoffSettings.longest
  generalize config.baseDelay * factor count = scaled at hscaled
  rw [if_pos hthreshold]
  omega

end Backoff

open Backoff

namespace BackoffState

/-! ## Cooling -/

/-- Whoever asks for the path at `now` or later is put off until the window is over. A window that
ends beyond the calendar is never over. -/
def StaysCooling (s : BackoffState) (path : String) (now : Instant) (window : Nat) : Prop :=
  ∀ t, now ≤ t → (∀ u, now.addMillis? window = some u → t < u) → (s.cooling? path t).isSome

theorem cooling?_recordLimited (s : BackoffState) (path : String) (now : Instant) (jitter : Nat)
    (t : Instant) :
    (s.recordLimited path now jitter).1.cooling? path t =
      (now.addMillis? (s.recordLimited path now jitter).2).filter (t < ·) := by
  unfold cooling? recordLimited
  rw [find?_put, if_pos rfl, Option.bind_some]

theorem stays_cooling_iff (s : BackoffState) (path : String) (now : Instant) (jitter : Nat) :
    let w := (s.recordLimited path now jitter).2
    StaysCooling (s.recordLimited path now jitter).1 path now w ↔
      now.elapsed + w * 1000000 < Instant.horizon := by
  intro w
  rw [← now.isSome_addMillis?_iff w]
  unfold StaysCooling
  simp only [cooling?_recordLimited]
  cases hend : now.addMillis? w with
  | none =>
    refine iff_of_false (fun h => ?_) Bool.false_ne_true
    have := h now now.le_refl fun u hu => by cases hu
    cases this
  | some u =>
    refine iff_of_true (fun t _ ht => ?_) rfl
    rw [Option.filter_some, if_pos (decide_eq_true (ht u rfl))]
    rfl

theorem count_run (config : BackoffSettings) (history : List Call) (path : String) :
    ((new config).run history).count path =
      min (limitedSince (normalizePath path) history).length Text.u32Max := by
  unfold count
  rw [find?_run, count_entryOf]

theorem length_limitedSince_replicate (path : String) (now : Instant) (jitter n : Nat) :
    (limitedSince (normalizePath path) (List.replicate n (.limited path now jitter))).length = n := by
  unfold limitedSince
  simp [Call.clears, Call.limited?]

end BackoffState

open BackoffState

/-- The milliseconds from the end of the year 2100 to the end of the calendar. -/
def spareMillis : Int := (lastDay - lastDayOf2100) * 86400000

theorem recordLimited_eq_longest {config : BackoffSettings} (hvalid : config.validate = .ok ())
    (hfits : config.Fits) (path : String) (now : Instant) (jitter : Nat) :
    ∃ history, (((new config).run history).recordLimited path now jitter).2 = config.longest := by
  let n := max 65 config.extendedThreshold
  have hbits : 65 < Text.u32Max := by decide
  have hthreshold := hfits.extendedThreshold
  refine ⟨List.replicate n (.limited path now 0), ?_⟩
  unfold recordLimited
  rw [config_run, count_run, length_limitedSince_replicate]
  exact window_eq_longest hvalid hfits (by omega) (by omega) jitter

/-- After an answer that limits a path on, whatever came before it, the path is put off until the
window is over, and no longer, if the window ends within the calendar; else the path is not put off
at all. Up to the year 2100 all windows of the settings end within the calendar exactly if the
longest does. -/
theorem stays_cooling_until_window_ends {config : BackoffSettings}
    (hvalid : config.validate = .ok ()) :
    (∀ history path now jitter,
      let s := (new config).run history
      let after := (s.recordLimited path now jitter).1
      let w := (s.recordLimited path now jitter).2
      (0 < w ∧ w ≤ config.longest) ∧
        (now.elapsed + w * 1000000 < Instant.horizon →
          StaysCooling after path now w ∧
            ∃ u, now < u ∧ u.elapsed = now.elapsed + w * 1000000 ∧
              ∀ t, after.cooling? path t = if t < u then some u else none) ∧
        (Instant.horizon ≤ now.elapsed + w * 1000000 → ∀ t, after.cooling? path t = none)) ∧
    (config.Fits →
      ((∀ history path now jitter,
          1970 ≤ (Date.ofDayNumber now.day).year → (Date.ofDayNumber now.day).year ≤ 2100 →
          jitter ≤ config.jitter →
          let s := (new config).run history
          StaysCooling (s.recordLimited path now jitter).1 path now
            (s.recordLimited path now jitter).2) ↔
        config.longest ≤ spareMillis)) := by
  have hwindow (history : List Call) (path : String) (now : Instant) (jitter : Nat) :
      let w := (((new config).run history).recordLimited path now jitter).2
      0 < w ∧ w ≤ config.longest := by
    unfold recordLimited
    rw [config_run]
    exact window_bounds hvalid _ jitter
  refine ⟨fun history path now jitter => ?_, fun hfits => ⟨fun h => ?_, ?_⟩⟩
  · intro s after w
    have hpos : 0 < w := (hwindow history path now jitter).1
    refine ⟨hwindow history path now jitter, fun hend => ?_, fun hend t => ?_⟩
    · obtain ⟨u, hu⟩ := Option.isSome_iff_exists.mp ((now.isSome_addMillis?_iff w).mpr hend)
      refine ⟨(stays_cooling_iff s path now jitter).mpr hend, u, Instant.lt_of_addMillis? hpos hu,
        Instant.elapsed_of_addMillis? hu, fun t => ?_⟩
      rw [cooling?_recordLimited, hu, Option.filter_some]
      simp only [decide_eq_true_eq]
    · have hnone : now.addMillis? w = none := by
        rw [← Option.not_isSome_iff_eq_none, now.isSome_addMillis?_iff w]
        omega
      rw [cooling?_recordLimited, hnone]
      rfl
  · -- The longest window at the last instant of the year 2100.
    let now : Instant :=
      ⟨lastDayOf2100, 86399, 999999999, by decide, by decide, by decide, by decide⟩
    obtain ⟨history, hlongest⟩ := recordLimited_eq_longest hvalid hfits "/" now 0
    have hstays := (stays_cooling_iff _ "/" now 0).mp
      (h history "/" now 0 (by decide) (by decide) (Nat.zero_le _))
    rw [hlongest] at hstays
    have hnow : now.elapsed = (lastDayOf2100 + 1) * 86400 * 1000000000 - 1 := by decide
    unfold Instant.horizon at hstays
    unfold spareMillis
    omega
  · intro hlongest history path now jitter _ hyear _ s
    refine (stays_cooling_iff s path now jitter).mpr ?_
    have hw : (s.recordLimited path now jitter).2 ≤ config.longest :=
      (hwindow history path now jitter).2
    have hnow := elapsed_lt_of_year_le hyear
    unfold spareMillis at hlongest
    unfold Instant.horizon
    omega

/-- The settings that stand where none are given keep all of their windows up to the year 2100. -/
theorem stays_cooling_by_default :
    let config : BackoffSettings := {}
    config.validate = .ok () ∧ config.Fits ∧
      ∀ history path now jitter,
        1970 ≤ (Date.ofDayNumber now.day).year → (Date.ofDayNumber now.day).year ≤ 2100 →
        jitter ≤ 150 →
        let s := (new config).run history
        StaysCooling (s.recordLimited path now jitter).1 path now
          (s.recordLimited path now jitter).2 := by
  intro config
  have hvalid : config.validate = .ok () := by decide
  have hfits : config.Fits := ⟨by decide, by decide⟩
  exact ⟨hvalid, hfits, ((stays_cooling_until_window_ends hvalid).2 hfits).mpr (by decide)⟩

/-- A base delay of some hundred thousand years is in order. The path is put off after the first
answer that limits it; the second one makes it ready. -/
theorem cooling_ends_with_second_time :
    let config : BackoffSettings :=
      { baseDelay := 5000000000000000, maxDelay := 10000000000000000, jitter := 0
        extendedMax := 10000000000000000 }
    let now : Instant := ⟨20157, 43200, 0, by decide, by decide, by decide, by decide⟩
    let once := (new config).recordLimited "/a" now 0
    let twice := once.1.recordLimited "/a" now 0
    config.validate = .ok () ∧ config.Fits ∧ (once.1.cooling? "/a" now).isSome ∧
      twice.2 = 10000000000000000 ∧ twice.1.cooling? "/a" now = none ∧
      ¬ StaysCooling twice.1 "/a" now twice.2 := by
  intro config now once twice
  have hready : twice.1.cooling? "/a" now = none := by decide
  have hend : now.addMillis? twice.2 = none := by decide
  refine ⟨by decide, ⟨by decide, by decide⟩, by decide, by decide, hready, fun h => ?_⟩
  have := h now now.le_refl fun u hu => by rw [hend] at hu; cases hu
  rw [hready] at this
  cases this

end Cadence
