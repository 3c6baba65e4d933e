import Cadence.Proofs.Settings.Rules
import Cadence.Proofs.Time.Elapsed
import Cadence.Proofs.Token.RoundTrip

/-!
# How long tokens hold

Settings in order have positive hours, with more of them for the refresh token than for the access
token, but with no bound above. A pair is issued exactly if the refresh token ends within the
calendar. Then each token holds for its hours to the second, and no number on the way leaves the
range of its type.
-/

namespace Cadence

/-- The hours from the end of the year 2100 to the end of the calendar. -/
def spareHours : Int := (lastDay - lastDayOf2100) * 24

namespace Token

variable {config : TokenSettings} {p : Principal} {now : Instant} {pair : Pair} {hours : Int}

/-- The tokens of a pair hold for the hours of the settings, and the answer tells the seconds. -/
structure Exact (config : TokenSettings) (p : Principal) (now : Instant) (pair : Pair) : Prop where
  access : Carries config.secret pair.access p .access now.unixSeconds
    (now.unixSeconds + config.accessExpiration * 3600)
  refresh : Carries config.secret pair.refresh p .refresh now.unixSeconds
    (now.unixSeconds + config.refreshExpiration * 3600)
  expiresIn : (Response.bearer pair config.accessExpiration).expiresIn =
    3600 * config.accessExpiration
  /-- both spans are numbers of milliseconds of 64 bits -/
  spans : ∀ hours ∈ [config.accessExpiration, config.refreshExpiration],
    0 < hours * 3600000 ∧ hours * 3600000 ≤ Text.i64Max

/-! ## Within the calendar -/

theorem span_le (h : now.elapsed + hours * 3600 * 1000000000 < Instant.horizon) :
    hours * 3600000 ≤ Text.i64Max := by
  have hfirst := now.day_ge
  unfold Instant.elapsed Instant.unixSeconds Instant.horizon at h
  unfold firstDay at hfirst
  unfold lastDay at h
  unfold Text.i64Max
  omega

theorem isSome_issue?_iff (p : Principal) (kind : TokenKind) (secret : String) (now : Instant)
    (hpos : 0 < hours) :
    (issue? p kind secret hours now).isSome ↔
      now.elapsed + hours * 3600 * 1000000000 < Instant.horizon := by
  unfold issue? claims? Instant.addSeconds?
  rw [Option.isSome_map, Option.isSome_map, now.isSome_add?_iff (by omega) (by omega)]
  omega

theorem carries_hours {kind : TokenKind} {secret token : String} (hpos : 0 < hours)
    (h : issue? p kind secret hours now = some token) :
    Carries secret token p kind now.unixSeconds (now.unixSeconds + hours * 3600) := by
  obtain ⟨expiry, hexpiry, -, hcarries⟩ := carries_of_issue? h
  rwa [Instant.unixSeconds_of_addSeconds? (by omega) hexpiry] at hcarries

theorem isSome_issuePair?_iff (hvalid : config.validate = .ok ()) :
    (issuePair? p config.secret config.accessExpiration config.refreshExpiration now).isSome ↔
      now.elapsed + config.refreshExpiration * 3600 * 1000000000 < Instant.horizon := by
  obtain ⟨-, -, haccess, hrefresh⟩ := TokenSettings.validate_eq_ok_iff.mp hvalid
  have hlast := isSome_issue?_iff p .refresh config.secret now (haccess.trans hrefresh)
  have hfirst := isSome_issue?_iff p .access config.secret now haccess
  rw [← hlast]
  simp only [Option.isSome_iff_exists] at *
  constructor
  · rintro ⟨pair, hpair⟩
    exact ⟨pair.refresh, (issuePair?_eq_some.mp hpair).2⟩
  · rintro ⟨refresh, hrefreshed⟩
    have hend := hlast.mp ⟨refresh, hrefreshed⟩
    obtain ⟨access, haccessed⟩ := hfirst.mpr (by omega)
    exact ⟨⟨access, refresh⟩, issuePair?_eq_some.mpr ⟨haccessed, hrefreshed⟩⟩

theorem exact_of_issuePair? (hvalid : config.validate = .ok ())
    (h : issuePair? p config.secret config.accessExpiration config.refreshExpiration now =
      some pair) :
    Exact config p now pair := by
  obtain ⟨-, -, haccess, hrefresh⟩ := TokenSettings.validate_eq_ok_iff.mp hvalid
  obtain ⟨hfirst, hlast⟩ := issuePair?_eq_some.mp h
  have hend := (isSome_issuePair?_iff hvalid).mp (Option.isSome_of_eq_some h)
  have hspan := span_le hend
  exact
    { access := carries_hours haccess hfirst
      refresh := carries_hours (by omega) hlast
      expiresIn := Int.mul_comm _ _
      spans := by
        simp only [List.mem_cons, List.not_mem_nil, or_false, forall_eq_or_imp, forall_eq]
        omega }

/-! ## Up to the year 2100 -/

/-- Under settings in order, a pair that is issued is exact, and one is issued exactly if the
refresh token ends within the calendar. Up to the year 2100 this is always so exactly for settings
with no more hours than are left from then on. -/
theorem lifetimes_are_exact (hvalid : config.validate = .ok ()) :
    (∀ p now,
      let issued :=
        issuePair? p config.secret config.accessExpiration config.refreshExpiration now
      (now.elapsed + config.refreshExpiration * 3600 * 1000000000 < Instant.horizon →
        ∃ pair, issued = some pair ∧ Exact config p now pair) ∧
      (Instant.horizon ≤ now.elapsed + config.refreshExpiration * 3600 * 1000000000 →
        issued = none)) ∧
    ((∀ p now,
        1970 ≤ (Date.ofDayNumber now.day).year → (Date.ofDayNumber now.day).year ≤ 2100 →
        ∃ pair,
          issuePair? p config.secret config.accessExpiration config.refreshExpiration now =
              some pair ∧
            Exact config p now pair) ↔
      config.refreshExpiration ≤ spareHours) := by
  have hissued (p : Principal) (now : Instant)
      (h : now.elapsed + config.refreshExpiration * 3600 * 1000000000 < Instant.horizon) :
      ∃ pair, issuePair? p config.secret config.accessExpiration config.refreshExpiration now =
        some pair ∧ Exact config p now pair := by
    obtain ⟨pair, hpair⟩ := Option.isSome_iff_exists.mp ((isSome_issuePair?_iff hvalid).mpr h)
    exact ⟨pair, hpair, exact_of_issuePair? hvalid hpair⟩
  refine ⟨fun p now => ⟨hissued p now, fun h => ?_⟩, fun hall => ?_, fun h p now _ hyear => ?_⟩
  · rw [← Option.not_isSome_iff_eq_none, isSome_issuePair?_iff hvalid]
    omega
  · -- A pair that is issued at the last instant of the year 2100.
    let now : Instant :=
      ⟨lastDayOf2100, 86399, 999999999, by decide, by decide, by decide, by decide⟩
    obtain ⟨pair, hpair, -⟩ :=
      hall ⟨"", .user, none, none, none⟩ now (by decide) (by decide)
    have hend := (isSome_issuePair?_iff hvalid).mp (Option.isSome_of_eq_some hpair)
    have hnow : now.elapsed = (lastDayOf2100 + 1) * 86400 * 1000000000 - 1 := by decide
    unfold Instant.horizon at hend
    unfold spareHours
    omega
  -- Within these years what is left of the calendar is at least as long as at their end.
  · refine hissued p now ?_
    have hnow := elapsed_lt_of_year_le hyear
    unfold spareHours at h
    unfold Instant.horizon
    omega

theorem lifetimes_by_default :
    let config : TokenSettings := { secret := "an-adequately-long-test-secret-value" }
    config.validate = .ok () ∧ config.accessExpiration = 1 ∧ config.refreshExpiration = 168 ∧
      ∀ p now,
        1970 ≤ (Date.ofDayNumber now.day).year → (Date.ofDayNumber now.day).year ≤ 2100 →
        ∃ pair, issuePair? p config.secret 1 168 now = some pair ∧ Exact config p now pair := by
  intro config
  have hvalid : config.validate = .ok () := by decide
  exact ⟨hvalid, rfl, rfl, (lifetimes_are_exact hvalid).2.mpr (by decide)⟩

/-- A refresh token for some hundred thousand years is in order, and nothing is issued under it. -/
theorem lifetime_beyond_calendar :
    let config : TokenSettings :=
      { secret := "an-adequately-long-test-secret-value", refreshExpiration := 3000000000 }
    let p : Principal := ⟨"u1", .admin, none, none, none⟩
    let now : Instant := ⟨20157, 43200, 0, by decide, by decide, by decide, by decide⟩
    config.validate = .ok () ∧
      1970 ≤ (Date.ofDayNumber now.day).year ∧ (Date.ofDayNumber now.day).year ≤ 2100 ∧
      issuePair? p config.secret config.accessExpiration config.refreshExpiration now = none := by
  intro config p now
  have hend : now.addSeconds? (3000000000 * 3600) = none := by decide
  refine ⟨by decide, by decide, by decide, ?_⟩
  rw [← Option.not_isSome_iff_eq_none, Option.isSome_iff_exists]
  rintro ⟨pair, hpair⟩
  obtain ⟨expiry, hexpiry, -⟩ := carries_of_issue? (issuePair?_eq_some.mp hpair).2
  rw [hend] at hexpiry
  cases hexpiry

end Token

end Cadence
