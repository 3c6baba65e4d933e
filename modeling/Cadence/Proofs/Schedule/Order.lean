import Cadence.Proofs.Schedule.Search

/-!
# Schedules keep the order of time

Of two instants the later one has no earlier next run. Inside a leap second this need not be so: its
fraction is past a whole second, and a step ahead takes only what is beyond it.
-/

namespace Cadence

namespace Instant

theorem le_iff_unixSeconds {s t : Instant} : s ≤ t ↔
    s.unixSeconds < t.unixSeconds ∨ s.unixSeconds = t.unixSeconds ∧ s.nano ≤ t.nano := by
  have hs := s.second_lt
  have ht := t.second_lt
  unfold unixSeconds
  rw [le_iff]
  omega

theorem addSeconds?_eq {t : Instant} {seconds : Int} (hpos : 0 < seconds) :
    t.addSeconds? seconds = ofSeconds? (t.unixSeconds + seconds) (t.nano % 1000000000) := by
  have hne : decide (seconds = 0) = false := decide_eq_false (by omega)
  have hge : decide (seconds < 0) = false := decide_eq_false (by omega)
  have hcarry : (t.nano % 1000000000 + 0) / 1000000000 = 0 := by omega
  have hnano : (t.nano % 1000000000 + 0) % 1000000000 = t.nano % 1000000000 := by omega
  unfold addSeconds? add?
  simp only [hne, hge, hcarry, hnano, Bool.and_false, Bool.false_and, Bool.false_eq_true, if_false,
    Int.natCast_zero, Int.add_zero]

theorem ofSeconds?_eq_none_iff {seconds : Int} {nano : Nat} (hnano : nano < 1000000000) :
    ofSeconds? seconds nano = none ↔ ∀ v : Instant, v.unixSeconds ≠ seconds := by
  constructor
  · intro hnone v hv
    have hsecond := v.second_lt
    unfold unixSeconds at hv
    obtain ⟨u, hu⟩ := exists_of? v.day_ge v.day_le hsecond hnano
    unfold ofSeconds? at hnone
    rw [show seconds / 86400 = v.day by omega,
      show (seconds % 86400).toNat = v.second by omega, hu] at hnone
    cases hnone
  · intro hall
    cases hu : ofSeconds? seconds nano with
    | none => rfl
    | some u => exact absurd (unixSeconds_of_ofSeconds? hu) (hall u)

theorem addSeconds?_eq_none_iff {t : Instant} {seconds : Int} (hpos : 0 < seconds) :
    t.addSeconds? seconds = none ↔ ∀ v : Instant, v.unixSeconds ≠ t.unixSeconds + seconds := by
  rw [addSeconds?_eq hpos]
  exact ofSeconds?_eq_none_iff (Nat.mod_lt _ (by decide))

theorem midnight?_eq_none_iff {day : Int} :
    midnight? day = none ↔ ∀ v : Instant, v.unixSeconds ≠ day * 86400 := by
  have hmidnight : midnight? day = ofSeconds? (day * 86400) 0 := by
    unfold midnight? ofSeconds?
    rw [Int.mul_ediv_cancel day (by decide), Int.mul_emod_left]
    rfl
  rw [hmidnight]
  exact ofSeconds?_eq_none_iff (by decide)

theorem addSeconds?_mono {s t u v : Instant} {seconds : Int} (hpos : 0 < seconds)
    (hs : s.isLeap = false) (ht : t.isLeap = false) (h : s ≤ t)
    (hu : s.addSeconds? seconds = some u) (hv : t.addSeconds? seconds = some v) : u ≤ v := by
  have hseconds := unixSeconds_of_addSeconds? (Int.le_of_lt hpos) hu
  have hseconds' := unixSeconds_of_addSeconds? (Int.le_of_lt hpos) hv
  rw [addSeconds?_eq hpos] at hu hv
  obtain ⟨-, -, hnano⟩ := of?_eq_some hu
  obtain ⟨-, -, hnano'⟩ := of?_eq_some hv
  unfold isLeap at hs ht
  rw [decide_eq_false_iff_not, Nat.not_le] at hs ht
  rw [Nat.mod_eq_of_lt hs] at hnano
  rw [Nat.mod_eq_of_lt ht] at hnano'
  rw [le_iff_unixSeconds] at h ⊢
  omega

end Instant

namespace Schedule

variable {s : Schedule}

theorem le_of_next? {t t' u v : Instant} (h : t ≤ t') (hu : s.next? t = some u)
    (hv : s.next? t' = some v) : u ≤ v := by
  obtain ⟨hnano, x, hx, -, -, hleast⟩ := least_of_next? hu
  obtain ⟨hnano', y, hy, -, hadmits, -⟩ := least_of_next? hv
  have hlater := (Instant.lt_iff_of_nano hnano').mp (lt_of_next? hv)
  rw [Instant.le_iff_unixSeconds] at h
  rw [Instant.le_iff_of_nano hnano hnano', hx, hy]
  by_contra hlt
  rw [hleast y (by omega) (by omega)] at hadmits
  cases hadmits

end Schedule

namespace ScheduleKind

/-- The seconds from one run to the next, where these are always the same. -/
def pause? : ScheduleKind → Option Nat
  | interval seconds => some seconds
  | fallback => some fallbackSeconds
  | daily | cron _ => none

theorem next?_of_pause? {kind : ScheduleKind} {seconds : Nat} (h : kind.pause? = some seconds)
    (t : Instant) : kind.next? t = t.addSeconds? seconds := by
  cases kind <;> cases h <;> rfl

theorem pause_pos {expression : String} {seconds : Nat}
    (h : (ofExpression expression).pause? = some seconds) : 0 < seconds := by
  cases hkind : ofExpression expression with
  | interval n =>
    rw [hkind] at h
    cases h
    exact interval_pos hkind
  | fallback =>
    rw [hkind] at h
    cases h
    decide
  | daily | cron _ =>
    rw [hkind] at h
    cases h

theorem le_of_next? {kind : ScheduleKind}
    (hpos : ∀ seconds, kind.pause? = some seconds → 0 < seconds)
    {s t u v : Instant} (hs : s.isLeap = false) (ht : t.isLeap = false) (h : s ≤ t)
    (hu : kind.next? s = some u) (hv : kind.next? t = some v) : u ≤ v := by
  cases hpause : kind.pause? with
  | some seconds =>
    have := hpos seconds hpause
    rw [next?_of_pause? hpause] at hu hv
    exact Instant.addSeconds?_mono (by omega) hs ht h hu hv
  | none =>
    cases kind with
    | interval _ | fallback => cases hpause
    | cron schedule => exact Schedule.le_of_next? h hu hv
    | daily =>
      obtain ⟨hday, hsecond, hnano⟩ := Instant.of?_eq_some hu
      obtain ⟨hday', hsecond', hnano'⟩ := Instant.of?_eq_some hv
      rw [Instant.le_iff] at h ⊢
      omega

end ScheduleKind

/-- The next run of an expression is later than the instant it is asked for. A keyword and a text
that is no schedule have one unless the calendar ends before it. Of two instants outside of leap
seconds the later one has no earlier next run. -/
theorem nextExecution_in_order (expression : String) :
    (∀ t u, nextExecution expression t = some u → t < u) ∧
      (∀ seconds, (ScheduleKind.ofExpression expression).pause? = some seconds → ∀ t,
        (nextExecution expression t = none ↔
          ∀ v : Instant, v.unixSeconds ≠ t.unixSeconds + seconds)) ∧
      (ScheduleKind.ofExpression expression = .daily → ∀ t,
        (nextExecution expression t = none ↔
          ∀ v : Instant, v.unixSeconds ≠ (t.day + 1) * 86400)) ∧
      ∀ s t u v, s.isLeap = false → t.isLeap = false → s ≤ t →
        nextExecution expression s = some u → nextExecution expression t = some v → u ≤ v := by
  refine ⟨fun t u => lt_of_nextExecution, fun seconds hpause t => ?_, fun hdaily t => ?_,
    fun s t u v hs ht h => ScheduleKind.le_of_next? (fun _ => ScheduleKind.pause_pos) hs ht h⟩
  · have := ScheduleKind.pause_pos hpause
    unfold nextExecution
    rw [ScheduleKind.next?_of_pause? hpause]
    exact Instant.addSeconds?_eq_none_iff (by omega)
  · unfold nextExecution
    rw [hdaily]
    exact Instant.midnight?_eq_none_iff

theorem nextExecution_in_order_of_last_hours :
    let early : Instant := ⟨lastDay, 79200, 0, by decide, by decide, by decide, by decide⟩
    let late : Instant := ⟨lastDay, 82800, 0, by decide, by decide, by decide, by decide⟩
    let leap : Instant := ⟨17166, 86399, 1500000000, by decide, by decide, by decide, by decide⟩
    let spring : Instant := ⟨17226, 0, 0, by decide, by decide, by decide, by decide⟩
    let autumn : Instant := ⟨17440, 0, 0, by decide, by decide, by decide, by decide⟩
    let newYear : Instant := ⟨17532, 0, 0, by decide, by decide, by decide, by decide⟩
    (ScheduleKind.ofExpression " every_hour ").pause? = some 3600 ∧
      nextExecution " every_hour " early = some late ∧ nextExecution " every_hour " late = none ∧
      ScheduleKind.ofExpression "daily" = .daily ∧ nextExecution "daily" late = none ∧
      (∃ u, nextExecution "0 0 1 Jan *" leap = some u ∧ leap < u) ∧
      spring.isLeap = false ∧ autumn.isLeap = false ∧ spring ≤ autumn ∧
      nextExecution "0 0 1 Jan *" spring = some newYear ∧
      nextExecution "0 0 1 Jan *" autumn = some newYear ∧ newYear ≤ newYear := by
  intro early late leap spring autumn newYear
  obtain ⟨-, hhour, -⟩ := nextExecution_in_order " every_hour "
  obtain ⟨-, -, hdaily, -⟩ := nextExecution_in_order "daily"
  obtain ⟨hlater, -, -, hmono⟩ := nextExecution_in_order "0 0 1 Jan *"
  have hpause : (ScheduleKind.ofExpression " every_hour ").pause? = some 3600 := by decide +kernel
  have hkind : ScheduleKind.ofExpression "daily" = .daily := by decide +kernel
  have hleap : nextExecution "0 0 1 Jan *" leap =
      some ⟨17167, 0, 0, by decide, by decide, by decide, by decide⟩ := by decide +kernel
  have hspring : nextExecution "0 0 1 Jan *" spring = some newYear := by decide +kernel
  have hautumn : nextExecution "0 0 1 Jan *" autumn = some newYear := by decide +kernel
  -- No instant is past the last second of the last day.
  have hend (v : Instant) : v.unixSeconds < (lastDay + 1) * 86400 := by
    have hday := v.day_le
    have hsecond := v.second_lt
    unfold Instant.unixSeconds
    omega
  refine ⟨hpause, by decide +kernel, (hhour 3600 hpause late).mpr fun v hv => ?_, hkind,
    (hdaily hkind late).mpr fun v hv => ?_, ⟨_, hleap, hlater leap _ hleap⟩, by decide, by decide,
    by decide, hspring, hautumn,
    hmono spring autumn newYear newYear (by decide) (by decide) (by decide) hspring hautumn⟩
  · have hlast : late.unixSeconds = (lastDay + 1) * 86400 - 3600 := by decide
    have := hend v
    omega
  · have := hend v
    have hday : late.day = lastDay := rfl
    omega

/-- Inside a leap second, the later instant may have the earlier next run. -/
example :
    let s : Instant := ⟨17166, 86399, 900000000, by decide, by decide, by decide, by decide⟩
    let t : Instant := ⟨17166, 86399, 1100000000, by decide, by decide, by decide, by decide⟩
    s ≤ t ∧ (t.addSeconds? 300).map (·.nano) = some 100000000 ∧
      (s.addSeconds? 300).map (·.nano) = some 900000000 := by
  decide

end Cadence
