import Cadence.Proofs.Time.Calendar
import Cadence.Time.Instant

/-!
# Steps on the time line

Instants as nanoseconds since the start of day 0. Leap seconds have no nanoseconds of their own: the
second half of a last second that lasts two falls on the first. A step ahead is an addition, and
there is no such instant exactly where the sum is beyond the last day.
-/

namespace Cadence

namespace Instant

theorem of?_eq_some {day : Int} {second nano : Nat} {u : Instant}
    (h : of? day second nano = some u) :
    u.day = day ∧ u.second = second ∧ u.nano = nano := by
  unfold of? at h
  split at h
  · rw [Option.some.injEq] at h
    subst h
    exact ⟨rfl, rfl, rfl⟩
  · cases h

theorem unixSeconds_of_ofSeconds? {seconds : Int} {nano : Nat} {u : Instant}
    (h : ofSeconds? seconds nano = some u) : u.unixSeconds = seconds := by
  obtain ⟨hday, hsecond, -⟩ := of?_eq_some h
  unfold unixSeconds
  rw [hday, hsecond]
  omega

theorem lt_of_unixSeconds_lt {t u : Instant} (h : t.unixSeconds < u.unixSeconds) : t < u := by
  have ht := t.second_lt
  have hu := u.second_lt
  unfold unixSeconds at h
  rw [lt_iff]
  omega

theorem le_refl (t : Instant) : t ≤ t := (le_total t t).elim id id

theorem le_of_lt {t u : Instant} (h : t < u) : t ≤ u :=
  (le_total t u).resolve_right (not_le.mpr h)

/-! ## Nanoseconds -/

/-- The nanoseconds from the start of day 0 to the instant. -/
def elapsed (t : Instant) : Int := t.unixSeconds * 1000000000 + (t.nano % 1000000000 : Nat)

/-- The nanoseconds from the start of day 0 to the end of the last day. -/
def horizon : Int := (lastDay + 1) * 86400 * 1000000000

theorem isSome_of?_iff {day : Int} {second nano : Nat} :
    (of? day second nano).isSome ↔ (firstDay ≤ day ∧ day ≤ lastDay) ∧ second < 86400 ∧
      (nano < 1000000000 ∨ second % 60 = 59 ∧ nano < 2000000000) := by
  unfold of?
  split <;> simp_all

/-- A step ahead either stays in its leap second or comes out where the sum says. -/
theorem add?_cases (t : Instant) {seconds : Int} (hnonneg : 0 ≤ seconds) (nanos : Nat) :
    (seconds = 0 ∧ 1000000000 ≤ t.nano ∧ t.nano + nanos < 2000000000 ∧
        t.add? seconds nanos = of? t.day t.second (t.nano + nanos)) ∨
      ((t.nano < 1000000000 ∨ 0 < seconds ∨ 2000000000 ≤ t.nano + nanos) ∧
        t.add? seconds nanos =
          let sum := t.elapsed + seconds * 1000000000 + nanos
          ofSeconds? (sum / 1000000000) (sum % 1000000000).toNat) := by
  have hge : decide (seconds < 0) = false := decide_eq_false (by omega)
  unfold add?
  split
  · rename_i hstays
    unfold isLeap at hstays
    simp only [Bool.and_eq_true, decide_eq_true_eq] at hstays
    exact .inl ⟨hstays.1.2, hstays.1.1, hstays.2, rfl⟩
  · rename_i hleaves
    unfold isLeap at hleaves
    simp only [Bool.and_eq_true, decide_eq_true_eq, not_and] at hleaves
    refine .inr ⟨by omega, ?_⟩
    simp only [hge, Bool.and_false, Bool.false_eq_true, if_false]
    unfold elapsed
    congr 1 <;> omega

theorem isSome_add?_iff (t : Instant) {seconds : Int} (hnonneg : 0 ≤ seconds) {nanos : Nat}
    (hnanos : nanos < 1000000000) :
    (t.add? seconds nanos).isSome ↔ t.elapsed + seconds * 1000000000 + nanos < horizon := by
  have hfirst := t.day_ge
  have hlast := t.day_le
  have hsecond := t.second_lt
  have hnano := t.nano_lt
  rcases t.add?_cases hnonneg nanos with ⟨rfl, hleap, hstays, heq⟩ | ⟨-, heq⟩
  · rw [heq, isSome_of?_iff]
    unfold elapsed unixSeconds horizon
    omega
  · rw [heq]
    unfold ofSeconds?
    rw [isSome_of?_iff]
    unfold elapsed unixSeconds horizon
    unfold firstDay at *
    omega

theorem elapsed_of_add? {t u : Instant} {seconds : Int} (hnonneg : 0 ≤ seconds) {nanos : Nat}
    (h : t.add? seconds nanos = some u) :
    u.elapsed = t.elapsed + seconds * 1000000000 + nanos := by
  have hnano := t.nano_lt
  rcases t.add?_cases hnonneg nanos with ⟨rfl, hleap, hstays, heq⟩ | ⟨-, heq⟩
  · obtain ⟨hday, hsecond, hsum⟩ := of?_eq_some (heq ▸ h)
    unfold elapsed unixSeconds
    rw [hday, hsecond, hsum]
    omega
  · rw [heq] at h
    obtain ⟨hday, hsecond, hsum⟩ := of?_eq_some h
    unfold elapsed unixSeconds at *
    rw [hday, hsecond, hsum]
    omega

theorem lt_of_add? {t u : Instant} {seconds : Int} (hnonneg : 0 ≤ seconds) {nanos : Nat}
    (hpos : 0 < seconds ∨ 0 < nanos) (h : t.add? seconds nanos = some u) : t < u := by
  have hsum := elapsed_of_add? hnonneg h
  have ht := t.second_lt
  have hu := u.second_lt
  have hleap := t.nano_lt
  rw [lt_iff]
  rcases t.add?_cases hnonneg nanos with ⟨rfl, -, -, heq⟩ | ⟨hleaves, -⟩
  · obtain ⟨hday, hsecond, hnano⟩ := of?_eq_some (heq ▸ h)
    omega
  · unfold elapsed unixSeconds at hsum
    omega

/-! ## Whole seconds and milliseconds -/

theorem unixSeconds_of_addSeconds? {t u : Instant} {seconds : Int} (hnonneg : 0 ≤ seconds)
    (h : t.addSeconds? seconds = some u) : u.unixSeconds = t.unixSeconds + seconds := by
  have hsum := elapsed_of_add? hnonneg h
  unfold elapsed at hsum
  omega

theorem lt_of_addSeconds? {t u : Instant} {seconds : Int} (hpos : 0 < seconds)
    (h : t.addSeconds? seconds = some u) : t < u :=
  lt_of_add? (Int.le_of_lt hpos) (.inl hpos) h

theorem exists_of? {day : Int} {second : Nat} (h₁ : firstDay ≤ day) (h₂ : day ≤ lastDay)
    (h₃ : second < 86400) {nano : Nat} (h₄ : nano < 1000000000) :
    ∃ u, of? day second nano = some u := by
  unfold of?
  rw [dif_pos ⟨⟨h₁, h₂⟩, h₃, .inl h₄⟩]
  exact ⟨_, rfl⟩

theorem exists_addSeconds?_one {t u : Instant} (h : t.unixSeconds + 1 ≤ u.unixSeconds) :
    ∃ start, t.addSeconds? 1 = some start ∧ start.unixSeconds = t.unixSeconds + 1 := by
  obtain ⟨start, hstart⟩ : ∃ start, t.addSeconds? 1 = some start := by
    have ht := t.day_ge
    have hu := u.day_le
    have hsecond := u.second_lt
    unfold unixSeconds at h
    have hnano : (t.nano % 1000000000 + 0) / 1000000000 = 0 := by omega
    have hne : decide ((1 : Int) = 0) = false := by decide
    have hge : decide ((1 : Int) < 0) = false := by decide
    unfold addSeconds? add? ofSeconds?
    simp only [hne, hge, hnano, Bool.and_false, Bool.false_and, Bool.false_eq_true, if_false]
    unfold unixSeconds
    exact exists_of? (by omega) (by omega) (by omega) (by omega)
  exact ⟨start, hstart, unixSeconds_of_addSeconds? (by decide) hstart⟩

theorem isSome_addMillis?_iff (t : Instant) (millis : Nat) :
    (t.addMillis? millis).isSome ↔ t.elapsed + millis * 1000000 < horizon := by
  unfold addMillis?
  rw [t.isSome_add?_iff (by omega) (by omega)]
  omega

theorem elapsed_of_addMillis? {t u : Instant} {millis : Nat} (h : t.addMillis? millis = some u) :
    u.elapsed = t.elapsed + millis * 1000000 := by
  have hsum := elapsed_of_add? (by omega) h
  omega

theorem lt_of_addMillis? {t u : Instant} {millis : Nat} (hpos : 0 < millis)
    (h : t.addMillis? millis = some u) : t < u :=
  lt_of_add? (by omega) (by omega) h

end Instant

/-! ## Years -/

/-- The last day of the year 2100. -/
def lastDayOf2100 : Int := 47846

theorem elapsed_lt_of_year_le {now : Instant} (h : (Date.ofDayNumber now.day).year ≤ 2100) :
    now.elapsed < (lastDayOf2100 + 1) * 86400 * 1000000000 := by
  have hday : now.day ≤ lastDayOf2100 := (Date.year_le_iff lastDayOf2100 now.day (by decide)).mp h
  have hsecond := now.second_lt
  unfold Instant.elapsed Instant.unixSeconds
  omega

end Cadence
