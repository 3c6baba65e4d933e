import Cadence.Proofs.Schedule.Progress
import Cadence.Proofs.Time.Calendar
import Mathlib.Order.Bounds.Defs

/-!
# The search finds the least time

A schedule whose years are from 1970 to 2100 is searched over the seconds of these years. What is
found is the least instant that it admits after the given one; nothing is found only if there is no
such instant.
-/

namespace Cadence

namespace Date

theorem year_mem_iff {n : Int} :
    (1970 ≤ (ofDayNumber n).year ∧ (ofDayNumber n).year ≤ 2100) ↔ 0 ≤ n ∧ n < Schedule.dayCount := by
  have hfirst := year_le_iff (-1) n (by decide)
  have hlast := year_le_iff 47846 n (by decide)
  rw [show (ofDayNumber (-1)).year = 1969 by decide] at hfirst
  rw [show (ofDayNumber 47846).year = 2100 by decide] at hlast
  unfold Schedule.dayCount
  omega

end Date

namespace Instant

theorem lt_iff_of_nano {t u : Instant} (hu : u.nano = 0) :
    t < u ↔ t.unixSeconds + 1 ≤ u.unixSeconds := by
  have ht := t.second_lt
  have hu' := u.second_lt
  unfold unixSeconds
  rw [lt_iff]
  omega

theorem le_iff_of_nano {t u : Instant} (ht : t.nano = 0) (hu : u.nano = 0) :
    t ≤ u ↔ t.unixSeconds ≤ u.unixSeconds := by
  have ht' := t.second_lt
  have hu' := u.second_lt
  unfold unixSeconds
  rw [le_iff]
  omega

end Instant

namespace Schedule

/-- The instant is at a whole second that is in all fields. -/
structure Fires (s : Schedule) (u : Instant) : Prop where
  nano_eq : u.nano = 0
  day_mem : s.admitsDay u.day = true
  second_mem : s.admitsSecond u.second = true

variable {s : Schedule}

/-! ## The search over the seconds since 1970 -/

def admitsAt (s : Schedule) (x : Nat) : Bool :=
  s.admitsDay (x / 86400 : Nat) && s.admitsSecond (x % 86400)

theorem admitsAt_eq {day second : Nat} (h : second < 86400) :
    s.admitsAt (day * 86400 + second) = (s.admitsDay day && s.admitsSecond second) := by
  have hday : (day * 86400 + second) / 86400 = day := by omega
  have hsecond : (day * 86400 + second) % 86400 = second := by omega
  unfold admitsAt
  rw [hday, hsecond]

/-- What the rest of the day holds. -/
def today? (s : Schedule) (day second : Nat) : Option Nat :=
  if s.admitsDay day then leastFrom? s.admitsSecond second (86400 - second) else none

theorem today?_eq_some {day second n : Nat} (hsecond : second < 86400)
    (h : s.today? day second = some n) :
    n < 86400 ∧ s.admitsAt (day * 86400 + n) = true ∧
      ∀ x, day * 86400 + second ≤ x → x < day * 86400 + n → s.admitsAt x = false := by
  unfold today? at h
  split at h
  · rename_i hday
    obtain ⟨⟨-, hlt, hn⟩, hleast⟩ := leastFrom?_eq_some_iff.mp h
    have hlt' : n < 86400 := by omega
    refine ⟨hlt', by rw [admitsAt_eq hlt', hday, hn]; rfl, fun x hx hxn => ?_⟩
    obtain ⟨m, rfl⟩ : ∃ m, x = day * 86400 + m := ⟨x - day * 86400, by omega⟩
    rw [admitsAt_eq (by omega), hleast m (by omega) (by omega), Bool.and_false]
  · cases h

theorem today?_eq_none {day second x : Nat} (hsecond : second < 86400)
    (h : s.today? day second = none) (hx : day * 86400 + second ≤ x) (hday : x < (day + 1) * 86400) :
    s.admitsAt x = false := by
  obtain ⟨m, rfl⟩ : ∃ m, x = day * 86400 + m := ⟨x - day * 86400, by omega⟩
  rw [admitsAt_eq (by omega)]
  unfold today? at h
  split at h
  · rw [leastFrom?_eq_none_iff.mp h m (by omega) (by omega), Bool.and_false]
  · rename_i hnot
    rw [Bool.eq_false_iff.mpr hnot, Bool.false_and]

theorem firstFrom?_of_today {day second n : Nat} (h : s.today? day second = some n) :
    s.firstFrom? day second = some (day, n) := by
  unfold today? at h
  unfold firstFrom?
  simp only [h]

theorem today?_of_admitsDay {day : Nat} (h : s.admitsDay day = true) :
    s.today? day 0 = leastFrom? s.admitsSecond 0 86400 := by
  unfold today?
  rw [if_pos h, Nat.sub_zero]

theorem firstFrom?_of_later {day second : Nat} (h : s.today? day second = none) :
    s.firstFrom? day second =
      (leastFrom? (fun n => s.admitsDay n) (day + 1) (dayCount - (day + 1))).bind fun next =>
        (leastFrom? s.admitsSecond 0 86400).map fun n => (next, n) := by
  have hpair (found : Option Nat) (next : Nat) :
      (do return (next, ← found)) = found.map fun n => (next, n) := by cases found <;> rfl
  unfold today? at h
  unfold firstFrom?
  simp only [h, hpair, Option.bind_eq_bind]

theorem admitsAt_of_between {day next second x : Nat} (hsecond : second < 86400)
    (htoday : s.today? day second = none)
    (hdays : ∀ n, day + 1 ≤ n → n < next → s.admitsDay n = false)
    (hx : day * 86400 + second ≤ x) (hnext : x < next * 86400) : s.admitsAt x = false := by
  by_cases hday : x < (day + 1) * 86400
  · exact today?_eq_none hsecond htoday hx hday
  · unfold admitsAt
    rw [hdays (x / 86400) (by omega) (by omega), Bool.false_and]

theorem firstFrom?_eq_some {day second day' second' : Nat} (hsecond : second < 86400)
    (hday : day < dayCount) (h : s.firstFrom? day second = some (day', second')) :
    (day' < dayCount ∧ second' < 86400) ∧ s.admitsAt (day' * 86400 + second') = true ∧
      ∀ x, day * 86400 + second ≤ x → x < day' * 86400 + second' → s.admitsAt x = false := by
  cases htoday : s.today? day second with
  | some n =>
    rw [firstFrom?_of_today htoday, Option.some.injEq, Prod.mk.injEq] at h
    obtain ⟨rfl, rfl⟩ := h
    obtain ⟨hn, hadmits, hleast⟩ := today?_eq_some hsecond htoday
    exact ⟨⟨hday, hn⟩, hadmits, hleast⟩
  | none =>
    rw [firstFrom?_of_later htoday] at h
    simp only [Option.bind_eq_some_iff, Option.map_eq_some_iff, Prod.mk.injEq] at h
    obtain ⟨next, hnext, n, hn, rfl, rfl⟩ := h
    obtain ⟨⟨-, hlt, hadmits⟩, hdays⟩ := leastFrom?_eq_some_iff.mp hnext
    rw [← today?_of_admitsDay hadmits] at hn
    obtain ⟨hn, hadmits, hleast⟩ := today?_eq_some (by omega) hn
    refine ⟨⟨by omega, hn⟩, hadmits, fun x hx hxn => ?_⟩
    by_cases hbefore : x < next * 86400
    · exact admitsAt_of_between hsecond htoday hdays hx hbefore
    · rw [Nat.add_zero] at hleast
      exact hleast x (Nat.le_of_not_lt hbefore) hxn

theorem firstFrom?_eq_none {day second x : Nat} (hsecond : second < 86400)
    (h : s.firstFrom? day second = none) (hx : day * 86400 + second ≤ x)
    (hlast : x < dayCount * 86400) : s.admitsAt x = false := by
  cases htoday : s.today? day second with
  | some n =>
    rw [firstFrom?_of_today htoday] at h
    cases h
  | none =>
    rw [firstFrom?_of_later htoday] at h
    cases hnext : leastFrom? (fun n => s.admitsDay n) (day + 1) (dayCount - (day + 1)) with
    | none =>
      have hdays := leastFrom?_eq_none_iff.mp hnext
      refine admitsAt_of_between hsecond htoday (fun n h₁ h₂ => hdays n h₁ ?_) hx hlast
      omega
    | some next =>
      -- There is a day in the fields, so that it is the seconds that are missing.
      rw [hnext, Option.bind_some, Option.map_eq_none_iff] at h
      unfold admitsAt
      rw [leastFrom?_eq_none_iff.mp h (x % 86400) (by omega) (by omega), Bool.and_false]

/-! ## The next time -/

theorem fires_iff {u : Instant} (hyears : ∀ y, s.years.mem y = true → 1970 ≤ y ∧ y ≤ 2100) :
    s.Fires u ↔ u.nano = 0 ∧ ∃ x : Nat, x < dayCount * 86400 ∧ u.unixSeconds = x ∧
      s.admitsAt x = true := by
  have hsecond := u.second_lt
  constructor
  · rintro ⟨hnano, hday, hsec⟩
    refine ⟨hnano, ?_⟩
    have hyear := hday
    unfold admitsDay at hyear
    simp only [Bool.and_eq_true] at hyear
    have hbounds := hyears _ hyear.2
    have hrange : 0 ≤ u.day ∧ u.day < dayCount :=
      Date.year_mem_iff.mp ⟨by omega, by omega⟩
    obtain ⟨n, hn⟩ : ∃ n : Nat, u.day = n := ⟨u.day.toNat, by omega⟩
    refine ⟨n * 86400 + u.second, by omega, ?_, ?_⟩
    · unfold Instant.unixSeconds
      omega
    · rw [admitsAt_eq hsecond, ← hn, hday, hsec]
      rfl
  · rintro ⟨hnano, x, hx, hu, hadmits⟩
    unfold Instant.unixSeconds at hu
    obtain ⟨n, hn⟩ : ∃ n : Nat, u.day = n := ⟨u.day.toNat, by omega⟩
    rw [show x = n * 86400 + u.second by omega, admitsAt_eq hsecond, Bool.and_eq_true] at hadmits
    exact ⟨hnano, hn ▸ hadmits.1, hadmits.2⟩

theorem of?_of_seconds {day second : Nat} (hday : day < dayCount) (hsecond : second < 86400) :
    ∃ u, Instant.of? day second 0 = some u ∧ u.nano = 0 ∧
      u.unixSeconds = (day * 86400 + second : Nat) := by
  obtain ⟨u, hu⟩ : ∃ u, Instant.of? day second 0 = some u :=
    Instant.exists_of? (by unfold firstDay; omega) (by unfold lastDay dayCount at *; omega)
      hsecond (by omega)
  obtain ⟨h₁, h₂, h₃⟩ := Instant.of?_eq_some hu
  refine ⟨u, hu, h₃, ?_⟩
  unfold Instant.unixSeconds
  omega

theorem least_of_next? {t u : Instant} (h : s.next? t = some u) :
    u.nano = 0 ∧ ∃ x : Nat, u.unixSeconds = x ∧ x < dayCount * 86400 ∧ s.admitsAt x = true ∧
      ∀ y : Nat, t.unixSeconds + 1 ≤ y → y < x → s.admitsAt y = false := by
  rcases s.next?_cases t with ⟨day, second, hday, hsecond, hfrom, hnext⟩ | ⟨hnone, -⟩
  · rw [hnext, Option.bind_eq_some_iff] at h
    obtain ⟨⟨d, n⟩, hfirst, hu⟩ := h
    obtain ⟨⟨hd, hn⟩, hadmits, hleast⟩ := firstFrom?_eq_some hsecond hday hfirst
    obtain ⟨u', hu', hnano, hunix⟩ := of?_of_seconds hd hn
    obtain rfl : u' = u := Option.some.inj (hu'.symm.trans hu)
    exact ⟨hnano, _, hunix, by omega, hadmits, fun y hy => hleast y ((hfrom y).mp hy)⟩
  · rw [hnone] at h
    cases h

/-- What is found is the least instant that the schedule admits after the given one. -/
theorem next?_spec (hyears : ∀ y, s.years.mem y = true → 1970 ≤ y ∧ y ≤ 2100) {t : Instant}
    (hyear : 0 ≤ (Date.ofDayNumber t.day).year) :
    (∀ u, s.next? t = some u → IsLeast {v | t < v ∧ s.Fires v} u) ∧
      (s.next? t = none → ∀ v, t < v → ¬ s.Fires v) := by
  constructor
  · intro u hu
    obtain ⟨hnano, x, hx, hlast, hadmits, hleast⟩ := least_of_next? hu
    refine ⟨⟨lt_of_next? hu, (fires_iff hyears).mpr ⟨hnano, x, hlast, hx, hadmits⟩⟩, ?_⟩
    rintro v ⟨hv, hfires⟩
    obtain ⟨hnano', y, -, hy, hadmits'⟩ := (fires_iff hyears).mp hfires
    rw [Instant.lt_iff_of_nano hnano', hy] at hv
    rw [Instant.le_iff_of_nano hnano hnano', hx, hy]
    by_contra hlt
    rw [hleast y hv (by omega)] at hadmits'
    cases hadmits'
  · intro hu v hv hfires
    obtain ⟨hnano, x, hlast, hx, hadmits⟩ := (fires_iff hyears).mp hfires
    rw [Instant.lt_iff_of_nano hnano] at hv
    rcases s.next?_cases t with ⟨day, second, hday, hsecond, hfrom, hnext⟩ | ⟨-, hover⟩
    · rw [hx, hfrom] at hv
      cases hfirst : s.firstFrom? day second with
      | none =>
        rw [firstFrom?_eq_none hsecond hfirst hv hlast] at hadmits
        cases hadmits
      | some found =>
        obtain ⟨d, n⟩ := found
        obtain ⟨⟨hd, hn⟩, -⟩ := firstFrom?_eq_some hsecond hday hfirst
        obtain ⟨u, hu', -⟩ := of?_of_seconds hd hn
        rw [hnext, hfirst, Option.bind_some] at hu
        simp only [hu', reduceCtorEq] at hu
    · have := hover hyear v hv
      omega

theorem isLeast_unique {set : Set Instant} {u v : Instant} (hu : IsLeast set u)
    (hv : IsLeast set v) : u = v :=
  Instant.le_antisymm (hu.2 hv.1) (hv.2 hu.1)

theorem next?_eq_some_iff (hyears : ∀ y, s.years.mem y = true → 1970 ≤ y ∧ y ≤ 2100)
    {t u : Instant} (hyear : 0 ≤ (Date.ofDayNumber t.day).year) :
    s.next? t = some u ↔ IsLeast {v | t < v ∧ s.Fires v} u := by
  obtain ⟨hsome, hnone⟩ := next?_spec hyears hyear
  refine ⟨hsome u, fun h => ?_⟩
  cases hfound : s.next? t with
  | none => exact absurd h.1.2 (hnone hfound u h.1.1)
  | some v => rw [isLeast_unique (hsome v hfound) h]

theorem next?_eq_none_iff (hyears : ∀ y, s.years.mem y = true → 1970 ≤ y ∧ y ≤ 2100)
    {t : Instant} (hyear : 0 ≤ (Date.ofDayNumber t.day).year) :
    s.next? t = none ↔ ∀ v, t < v → ¬ s.Fires v := by
  obtain ⟨hsome, hnone⟩ := next?_spec hyears hyear
  refine ⟨hnone, fun h => ?_⟩
  cases hfound : s.next? t with
  | none => rfl
  | some v =>
    obtain ⟨⟨hlt, hfires⟩, -⟩ := hsome v hfound
    exact absurd hfires (h v hlt)

/-! ## All times -/

/-- The instants that one comes to, up to `count` of them. -/
def firings (next : Instant → Option Instant) : Nat → Instant → List Instant
  | 0, _ => []
  | count + 1, t =>
    match next t with
    | none => []
    | some u => u :: firings next count u

theorem firings_of_none {next : Instant → Option Instant} {t : Instant} (h : next t = none)
    (count : Nat) : firings next count t = [] := by
  cases count with
  | zero => rfl
  | succ count => simp only [firings, h]

theorem firings_of_some {next : Instant → Option Instant} {t u : Instant} (h : next t = some u)
    (count : Nat) : firings next (count + 1) t = u :: firings next count u := by
  simp only [firings, h]

theorem lt_trans {t u v : Instant} (h : t < u) (h' : u < v) : t < v := by
  simp only [Instant.lt_iff] at *
  omega

theorem Fires.year_nonneg (hyears : ∀ y, s.years.mem y = true → 1970 ≤ y ∧ y ≤ 2100) {u : Instant}
    (h : s.Fires u) : 0 ≤ (Date.ofDayNumber u.day).year := by
  have hday := h.day_mem
  unfold admitsDay at hday
  simp only [Bool.and_eq_true] at hday
  have := hyears _ hday.2
  omega

theorem firings_next? (hyears : ∀ y, s.years.mem y = true → 1970 ≤ y ∧ y ≤ 2100) {t : Instant}
    (hyear : 0 ≤ (Date.ofDayNumber t.day).year) :
    ∃ all : List Instant, all.Pairwise (· < ·) ∧ (∀ v, v ∈ all ↔ t < v ∧ s.Fires v) ∧
      ∀ count, firings s.next? count t = all.take count := by
  -- The seconds that are left of the years of a schedule become fewer.
  induction hleft : ((dayCount * 86400 : Nat) - t.unixSeconds).toNat using Nat.strongRecOn
    generalizing t with
  | ind left ih =>
    cases hnext : s.next? t with
    | none =>
      refine ⟨[], .nil, fun v => ?_, fun count => by rw [firings_of_none hnext, List.take_nil]⟩
      simpa using (next?_eq_none_iff hyears hyear).mp hnext v
    | some u =>
      obtain ⟨⟨hlt, hfires⟩, hleast⟩ := (next?_eq_some_iff hyears hyear).mp hnext
      obtain ⟨hnano, x, hx, hunix, -⟩ := (fires_iff hyears).mp hfires
      have hplus := (Instant.lt_iff_of_nano hnano).mp hlt
      obtain ⟨all, hsorted, hmem, hall⟩ := ih _ (by omega) (hfires.year_nonneg hyears) rfl
      refine ⟨u :: all, .cons (fun v hv => ((hmem v).mp hv).1) hsorted, fun v => ?_, fun count => ?_⟩
      · rw [List.mem_cons, hmem]
        constructor
        · rintro (rfl | ⟨hv, hfires'⟩)
          · exact ⟨hlt, hfires⟩
          · exact ⟨lt_trans hlt hv, hfires'⟩
        · rintro ⟨hv, hfires'⟩
          rcases (Instant.le_total v u) with hle | hle
          · exact .inl (Instant.le_antisymm hle (hleast ⟨hv, hfires'⟩))
          · by_cases heq : v = u
            · exact .inl heq
            · exact .inr ⟨Instant.not_le.mp fun h => heq (Instant.le_antisymm h hle), hfires'⟩
      · cases count with
        | zero => rfl
        | succ count => rw [firings_of_some hnext, hall, List.take_succ_cons]

end Schedule

end Cadence
