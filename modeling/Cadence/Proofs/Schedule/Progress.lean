import Cadence.Proofs.Time.Elapsed
import Cadence.Schedule.Kind

/-!
# Schedules go forward

The next run of an expression is later than the instant it is asked for. This holds of every text
and of every instant, inside a leap second too: all steps are compared by their whole seconds.
-/

namespace Cadence

namespace Schedule

theorem le_of_leastFrom? {p : Nat → Bool} {start count n : Nat}
    (h : leastFrom? p start count = some n) : start ≤ n :=
  (leastFrom?_eq_some_iff.mp h).1.1

theorem le_of_firstFrom? {s : Schedule} {day second day' second' : Nat}
    (h : s.firstFrom? day second = some (day', second')) :
    day < day' ∨ day' = day ∧ second ≤ second' := by
  unfold firstFrom? at h
  simp only at h
  split at h
  · rename_i n hn
    rw [Option.some.injEq, Prod.mk.injEq] at h
    obtain ⟨rfl, rfl⟩ := h
    right
    split at hn
    · exact ⟨rfl, le_of_leastFrom? hn⟩
    · cases hn
  · left
    simp only [Option.bind_eq_bind, Option.bind_eq_some_iff] at h
    obtain ⟨next, hnext, m, -, h⟩ := h
    simp only [Option.pure_def, Option.some.injEq, Prod.mk.injEq] at h
    have := le_of_leastFrom? hnext
    omega

/-- The search starts at the next second, or in 1970 where that is earlier. There is no start before
the year 0, and none where all years of a schedule are over. -/
theorem next?_cases (s : Schedule) (t : Instant) :
    (∃ day second : Nat, day < dayCount ∧ second < 86400 ∧
      (∀ x : Nat, t.unixSeconds + 1 ≤ x ↔ day * 86400 + second ≤ x) ∧
      s.next? t = (s.firstFrom? day second).bind fun (d, n) => Instant.of? d n 0) ∨
    s.next? t = none ∧
      (0 ≤ (Date.ofDayNumber t.day).year → ∀ v : Instant, t.unixSeconds + 1 ≤ v.unixSeconds →
        (dayCount * 86400 : Nat) ≤ v.unixSeconds) := by
  unfold next?
  cases hstart : t.addSeconds? 1 with
  | none =>
    refine .inr ⟨rfl, fun _ v hv => ?_⟩
    obtain ⟨start, hsome, -⟩ := Instant.exists_addSeconds?_one hv
    rw [hstart] at hsome
    cases hsome
  | some start =>
    have hplus := Instant.unixSeconds_of_addSeconds? (by decide) hstart
    have hsecond := start.second_lt
    have hsecond' := t.second_lt
    unfold Instant.unixSeconds at hplus
    simp only [Option.bind_eq_bind, Option.bind_some]
    by_cases hyear : (Date.ofDayNumber start.day).year < 0
    · refine .inr ⟨by rw [if_pos hyear]; rfl, fun hnot => ?_⟩
      have := Date.year_mono (show t.day ≤ start.day by omega)
      omega
    · rw [if_neg hyear]
      -- Where the search starts: in 1970 at the earliest, and on a day of the table.
      by_cases hbefore : start.day < 0
      · refine .inl ⟨0, 0, by decide, by decide, fun x => ?_, by rw [if_pos hbefore]⟩
        unfold Instant.unixSeconds
        omega
      · rw [if_neg hbefore]
        by_cases hlast : start.day.toNat < dayCount
        · refine .inl ⟨start.day.toNat, start.second, hlast, hsecond, fun x => ?_,
            by rw [if_pos hlast]⟩
          unfold Instant.unixSeconds
          omega
        · refine .inr ⟨by rw [if_neg hlast]; rfl, fun _ v hv => ?_⟩
          unfold Instant.unixSeconds at hv ⊢
          unfold dayCount at hlast ⊢
          omega

theorem lt_of_next? {s : Schedule} {t u : Instant} (h : s.next? t = some u) : t < u := by
  rcases s.next?_cases t with ⟨day, second, -, hlt, hfrom, hnext⟩ | ⟨hnone, -⟩
  · rw [hnext, Option.bind_eq_some_iff] at h
    obtain ⟨⟨d, n⟩, hfirst, hu⟩ := h
    have hle := le_of_firstFrom? hfirst
    obtain ⟨hday, hsecond, -⟩ := Instant.of?_eq_some hu
    have hstart := (hfrom (day * 86400 + second)).mpr (Nat.le_refl _)
    apply Instant.lt_of_unixSeconds_lt
    have := u.second_lt
    unfold Instant.unixSeconds at hstart ⊢
    omega
  · rw [hnone] at h
    cases h

end Schedule

theorem ScheduleKind.interval_pos {expression : String} {seconds : Nat}
    (h : ofExpression expression = .interval seconds) : 0 < seconds := by
  unfold ofExpression at h
  simp only at h
  split at h
  · rename_i kind hkind
    subst h
    obtain ⟨before, after, hlist, -⟩ := List.lookup_eq_some_iff.mp hkind
    have hmem : (_, ScheduleKind.interval seconds) ∈ keywords :=
      hlist ▸ List.mem_append_right before List.mem_cons_self
    simp only [keywords, List.mem_cons, Prod.mk.injEq, interval.injEq, List.not_mem_nil, or_false,
      reduceCtorEq, and_false] at hmem
    omega
  · split at h <;> cases h

theorem ScheduleKind.lt_of_next? {kind : ScheduleKind} {t u : Instant}
    (hpos : ∀ seconds, kind = .interval seconds → 0 < seconds) (h : kind.next? t = some u) :
    t < u := by
  cases kind with
  | interval seconds =>
    have := hpos seconds rfl
    exact Instant.lt_of_addSeconds? (by omega) h
  | daily =>
    obtain ⟨hday, -, -⟩ := Instant.of?_eq_some h
    rw [Instant.lt_iff]
    omega
  | cron schedule => exact Schedule.lt_of_next? h
  | fallback => exact Instant.lt_of_addSeconds? (by decide) h

theorem lt_of_nextExecution {expression : String} {t u : Instant}
    (h : nextExecution expression t = some u) : t < u :=
  ScheduleKind.lt_of_next? (fun _ => ScheduleKind.interval_pos) h

end Cadence
