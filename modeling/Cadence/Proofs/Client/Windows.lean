import Cadence.Proofs.Client.Cooling

/-!
# Windows grow, within bounds

The factor of a window doubles until 64 bits are full, and the limits of settings in order stand in
a row: the base delay, the greatest delay, the extended one. So windows do not shrink as the times
in a row become more, not at the threshold either, where the formula changes; and a jitter of at
most the base delay is made up for by the next doubling.
-/

namespace Cadence

namespace Backoff

/-! ## The factor -/

theorem factor_of_lt {count : Nat} (h : count < 65) : factor count = 2 ^ (count - 1) := by
  unfold factor
  rw [if_pos (by omega), Nat.one_shiftLeft]

theorem factor_lt_factor {c d : Nat} (hc : 1 ≤ c) (hcd : c < d) (hbits : c < 65) :
    factor c < factor d := by
  rw [factor_of_lt hbits]
  by_cases hd : d < 65
  · rw [factor_of_lt hd]
    apply Nat.pow_lt_pow_right (by decide)
    omega
  · rw [factor_of_le (by omega)]
    calc 2 ^ (c - 1) ≤ 2 ^ 63 := Nat.pow_le_pow_right (by decide) (by omega)
      _ < Text.u64Max := by decide

theorem factor_le_factor {c d : Nat} (hcd : c ≤ d) : factor c ≤ factor d := by
  rcases Nat.eq_or_lt_of_le hcd with rfl | hcd
  · exact le_refl _
  by_cases hbits : c < 65
  · rcases Nat.eq_zero_or_pos c with rfl | hc
    · exact factor_pos d
    · exact (factor_lt_factor hc hcd hbits).le
  · rw [factor_of_le (by omega), factor_of_le (by omega)]

/-! ## The delay, and the window -/

/-- The delay of a window, before it is doubled from the threshold on. -/
def delay (config : BackoffSettings) (count jitter : Nat) : Nat :=
  min (clamp64 (clamp64 (config.baseDelay * factor count) + jitter)) config.maxDelay

variable {config : BackoffSettings} {c d j k : Nat}

theorem window_eq_delay (config : BackoffSettings) (count jitter : Nat) :
    window config count jitter =
      if config.extendedThreshold ≤ count then
        min (clamp64 (delay config count jitter * 2)) config.extendedMax
      else delay config count jitter := rfl

theorem clamp64_mono {m n : Nat} (h : m ≤ n) : clamp64 m ≤ clamp64 n := by
  unfold clamp64
  omega

theorem delay_le_delay (hcd : c ≤ d) (hjk : j ≤ k) : delay config c j ≤ delay config d k := by
  have hscaled := clamp64_mono (Nat.mul_le_mul_left config.baseDelay (factor_le_factor hcd))
  have hsum := clamp64_mono (Nat.add_le_add hscaled hjk)
  unfold delay
  omega

theorem delay_of_le (hbase : 0 < config.baseDelay) (hc : 65 ≤ c) (jitter : Nat) :
    delay config c jitter = min Text.u64Max config.maxDelay := by
  have hscaled := full_of_le hbase hc
  unfold delay clamp64
  generalize config.baseDelay * factor c = scaled at hscaled
  omega

theorem delay_le_delay_of_lt (hbase : 0 < config.baseDelay) (hc : 1 ≤ c) (hcd : c < d)
    (hj : j ≤ config.baseDelay) : delay config c j ≤ delay config d k := by
  by_cases hbits : c < 65
  · have hscaled : config.baseDelay * factor c + j ≤ config.baseDelay * factor d :=
      calc config.baseDelay * factor c + j ≤ config.baseDelay * (factor c + 1) := by
            rw [Nat.mul_add_one]
            omega
        _ ≤ config.baseDelay * factor d :=
            Nat.mul_le_mul_left _ (factor_lt_factor hc hcd hbits)
    unfold delay clamp64
    omega
  · rw [delay_of_le hbase (by omega), delay_of_le hbase (by omega)]

theorem window_le_window (hvalid : config.validate = .ok ()) (hcd : c ≤ d)
    (hdelay : delay config c j ≤ delay config d k) : window config c j ≤ window config d k := by
  obtain ⟨-, -, -, hextended⟩ := BackoffSettings.validate_eq_ok_iff.mp hvalid
  have hmax : delay config c j ≤ config.maxDelay := Nat.min_le_right _ _
  have hbits : delay config d k ≤ Text.u64Max :=
    (Nat.min_le_left _ _).trans (Nat.min_le_right _ _)
  rw [window_eq_delay, window_eq_delay]
  unfold clamp64
  by_cases hc : config.extendedThreshold ≤ c
  · rw [if_pos hc, if_pos (hc.trans hcd)]
    omega
  · rw [if_neg hc]
    split <;> omega

theorem window_le_window_of_lt (hvalid : config.validate = .ok ()) (hc : 1 ≤ c) (hcd : c < d)
    (hj : j ≤ config.baseDelay) : window config c j ≤ window config d k := by
  have hbase := (BackoffSettings.validate_eq_ok_iff.mp hvalid).1
  exact window_le_window hvalid hcd.le (delay_le_delay_of_lt hbase hc hcd hj)

theorem baseDelay_le_window (hvalid : config.validate = .ok ()) (hfits : config.Fits)
    (count jitter : Nat) : config.baseDelay ≤ window config count jitter := by
  obtain ⟨-, hmax, -, hextended⟩ := BackoffSettings.validate_eq_ok_iff.mp hvalid
  have hbits := hfits.extendedMax
  have hscaled : config.baseDelay ≤ config.baseDelay * factor count :=
    Nat.le_mul_of_pos_right _ (factor_pos count)
  have hdelay : config.baseDelay ≤ delay config count jitter := by
    unfold delay clamp64
    omega
  rw [window_eq_delay]
  unfold clamp64
  split <;> omega

theorem window_le_of_lt (h : c < config.extendedThreshold) : window config c j ≤ config.maxDelay := by
  rw [window_eq_delay, if_neg (by omega)]
  exact Nat.min_le_right _ _

theorem window_le_of_le (h : config.extendedThreshold ≤ c) :
    window config c j ≤ config.extendedMax := by
  rw [window_eq_delay, if_pos h]
  exact Nat.min_le_right _ _

end Backoff

open Backoff

/-! ## The windows of a state -/

namespace BackoffState

variable {s : BackoffState} {path : String}

theorem count_recordLimited (s : BackoffState) (path : String) (now : Instant) (jitter : Nat) :
    (s.recordLimited path now jitter).1.count path = min (s.count path + 1) Text.u32Max := by
  unfold recordLimited
  rw [count, find?_put, if_pos rfl]
  rfl

theorem count_apply {call : Call} (hcall : call.clears (normalizePath path) = false)
    (hbits : s.count path ≤ Text.u32Max) :
    s.count path ≤ (s.apply call).count path ∧ (s.apply call).count path ≤ Text.u32Max := by
  unfold count at *
  rw [find?_apply, hcall]
  cases call.limited? (normalizePath path) with
  | none => exact ⟨le_refl _, hbits⟩
  | some time =>
    simp only [Bool.false_eq_true, if_false, Option.map_some, Option.getD_some]
    omega

theorem count_le_count_run {calls : List Call}
    (hcalls : ∀ call ∈ calls, call.clears (normalizePath path) = false)
    (hbits : s.count path ≤ Text.u32Max) : s.count path ≤ (s.run calls).count path := by
  induction calls generalizing s with
  | nil => exact le_refl _
  | cons call rest ih =>
    obtain ⟨hgrows, hbits'⟩ := count_apply (hcalls call List.mem_cons_self) hbits
    exact hgrows.trans (ih (fun c hc => hcalls c (List.mem_cons_of_mem call hc)) hbits')

/-- As long as a path is not cleared, a further time gives it no shorter window. -/
theorem recordLimited_le_recordLimited (hvalid : s.config.validate = .ok ()) {path' : String}
    (hpath : normalizePath path' = normalizePath path) {between : List Call}
    (hbetween : ∀ call ∈ between, call.clears (normalizePath path) = false) {j : Nat}
    (hj : j ≤ s.config.baseDelay) (now now' : Instant) (k : Nat) :
    let first := s.recordLimited path now j
    first.2 ≤ ((first.1.run between).recordLimited path' now' k).2 := by
  intro first
  have hconfig : (first.1.run between).config = s.config := config_run _ _
  have hcount' : (first.1.run between).count path' = (first.1.run between).count path := by
    unfold count
    rw [hpath]
  have hcount : first.1.count path = min (s.count path + 1) Text.u32Max :=
    count_recordLimited s path now j
  have hgrows : first.1.count path ≤ (first.1.run between).count path :=
    count_le_count_run hbetween (by omega)
  change window s.config (min (s.count path + 1) Text.u32Max) j ≤
    window (first.1.run between).config
      (min ((first.1.run between).count path' + 1) Text.u32Max) k
  rw [hconfig, hcount']
  generalize (first.1.run between).count path = later at hgrows
  by_cases hfull : s.count path + 1 < Text.u32Max
  · exact window_le_window_of_lt hvalid (by omega) (by omega) hj
  · -- The counter is full, and the delay has been for long.
    have hbase := (BackoffSettings.validate_eq_ok_iff.mp hvalid).1
    have hbits : 65 < Text.u32Max := by decide
    apply window_le_window hvalid (by omega)
    rw [delay_of_le hbase (by omega), delay_of_le hbase (by omega)]

end BackoffState

/-- A window is no shorter for a later time in a row and a longer jitter. It lasts the base delay at
least, the greatest delay at most below the threshold, and the extended one at most from there on.
If jitters are at most the base delay, a further time gives a path no shorter window, whatever
jitters are drawn and whatever happens in between, as long as the path is not cleared. -/
theorem windows_grow_within_bounds {config : BackoffSettings} (hvalid : config.validate = .ok ())
    (hfits : config.Fits) :
    (∀ c d j k, c ≤ d → j ≤ k → window config c j ≤ window config d k) ∧
    (∀ c j, 0 < config.baseDelay ∧ config.baseDelay ≤ window config c j ∧
      (c < config.extendedThreshold → window config c j ≤ config.maxDelay) ∧
      (config.extendedThreshold ≤ c → window config c j ≤ config.extendedMax)) ∧
    (config.jitter ≤ config.baseDelay →
      (∀ c d j k, 1 ≤ c → c < d → j ≤ config.jitter → window config c j ≤ window config d k) ∧
      ∀ (s : BackoffState) path path' now now' j k (between : List Call), s.config = config →
        normalizePath path' = normalizePath path →
        (∀ call ∈ between, call.clears (normalizePath path) = false) → j ≤ config.jitter →
        let first := s.recordLimited path now j
        first.2 ≤ ((first.1.run between).recordLimited path' now' k).2) := by
  refine ⟨?_, ?_, fun hjitter => ⟨?_, ?_⟩⟩
  · intro c d j k hcd hjk
    exact window_le_window hvalid hcd (delay_le_delay hcd hjk)
  · intro c j
    exact ⟨(BackoffSettings.validate_eq_ok_iff.mp hvalid).1, baseDelay_le_window hvalid hfits c j,
      window_le_of_lt, window_le_of_le⟩
  · intro c d j k hc hcd hj
    exact window_le_window_of_lt hvalid hc hcd (hj.trans hjitter)
  · rintro s path path' now now' j k between rfl hpath hbetween hj
    exact BackoffState.recordLimited_le_recordLimited hvalid hpath hbetween (hj.trans hjitter) now
      now' k

theorem windows_grow_within_bounds_of_two_times :
    let config : BackoffSettings := { jitter := 75 }
    let between : List Call := [.succeeded "/b", .limited "/a#top" .epoch 0]
    let first := (BackoffState.new config).recordLimited "/a" .epoch 75
    let last := (first.1.run between).recordLimited "/a?page=1" .epoch 0
    config.validate = .ok () ∧ config.Fits ∧ config.jitter ≤ config.baseDelay ∧
      (∀ call ∈ between, call.clears (normalizePath "/a") = false) ∧
      first.2 ≤ last.2 ∧ last.1.count "/a" = 3 := by
  intro config between first last
  have hvalid : config.validate = .ok () := by decide
  have hfits : config.Fits := ⟨by decide, by decide⟩
  have hjitter : config.jitter ≤ config.baseDelay := by decide
  have hbetween : ∀ call ∈ between, call.clears (normalizePath "/a") = false := by decide
  obtain ⟨-, -, hgrows⟩ := windows_grow_within_bounds hvalid hfits
  exact ⟨hvalid, hfits, hjitter, hbetween,
    (hgrows hjitter).2 (.new config) "/a" "/a?page=1" .epoch .epoch 75 0 between rfl (by decide)
      hbetween (by decide), by decide⟩

end Cadence
