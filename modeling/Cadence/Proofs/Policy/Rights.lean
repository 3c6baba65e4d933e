import Cadence.Proofs.Policy.Trail
import Mathlib.Tactic.ByContra
import Mathlib.Tactic.SplitIfs
import Mathlib.Tactic.Tauto

/-!
# More rights are never less

How far the rights of a caller reach is a number. Of two callers that are the same user in the same
tenant, one may touch all that the other may exactly if its rights reach as far; and they do if its
role, its tier and its position are at least as high.
-/

namespace Cadence

/-- How high a role is. Power users may do what users may. -/
def Role.rank : Role → Nat
  | .user | .powerUser => 0
  | .admin => 1
  | .superadmin => 2

namespace Policy

/-- How high a tier is; to have none is the lowest. -/
def tierRank : Option Tier → Nat
  | none => 0
  | some t => t.rank

/-- The caller stands at least as high as another one in each respect. -/
structure AtLeast (q p : Principal) : Prop where
  role : p.role.rank ≤ q.role.rank
  tier : tierRank p.tier ≤ tierRank q.tier
  position : q.employeeRole = some .manager ∨ q.employeeRole = p.employeeRole

/-- A record in which the user is the creator or the assignee now, whoever it was before. -/
inductive Joins (userId : String) : Resource → Resource → Prop
  | creator (tenantId : String) (createdBy assignedTo : Option String) :
      Joins userId (.record tenantId createdBy assignedTo)
        (.record tenantId (some userId) assignedTo)
  | assignee (tenantId : String) (createdBy assignedTo : Option String) :
      Joins userId (.record tenantId createdBy assignedTo)
        (.record tenantId createdBy (some userId))

instance (p : Principal) : Decidable (IsWide p) := inferInstanceAs (Decidable (_ ∨ _ ∨ _))

/-- How far the rights of a caller reach: to records of one's own, to all records of the tenant, to
the jobs, to the records of all tenants. -/
def reach (p : Principal) : Nat :=
  if p.role = .superadmin then 3
  else if p.role = .admin then 2
  else if IsWide p ∧ p.tenantId.isSome then 1
  else 0

variable {p q : Principal} {r r' : Resource}

/-! ## What is within reach -/

theorem mayTouch_cronAdmin_iff : MayTouch p .cronAdmin ↔ 2 ≤ reach p := by
  unfold MayTouch reach
  split_ifs <;> simp_all

theorem three_le_reach_iff : 3 ≤ reach p ↔ p.role = .superadmin := by
  unfold reach
  split_ifs <;> simp_all

theorem one_le_reach_iff {tenantId : String} (h : p.tenantId = some tenantId) :
    1 ≤ reach p ↔ p.role = .superadmin ∨ p.role = .admin ∨ IsWide p := by
  unfold reach
  split_ifs <;> simp_all

theorem mayTouch_record_iff {tenantId : String} {createdBy assignedTo : Option String} :
    MayTouch p (.record tenantId createdBy assignedTo) ↔
      3 ≤ reach p ∨ p.tenantId = some tenantId ∧
        (1 ≤ reach p ∨ createdBy = some p.userId ∨ assignedTo = some p.userId) := by
  unfold MayTouch
  rw [three_le_reach_iff]
  by_cases htenant : p.tenantId = some tenantId
  · rw [one_le_reach_iff htenant]
    tauto
  · simp [htenant]

theorem exists_tenantId (h : reach p = 1) : ∃ tenantId, p.tenantId = some tenantId := by
  unfold reach at h
  split_ifs at h with hsuper hadmin hwide
  · omega
  · omega
  · exact Option.isSome_iff_exists.mp hwide.2

/-! ## Higher callers -/

theorem isWide_iff : IsWide p ↔ p.employeeRole = some .manager ∨ 3 ≤ tierRank p.tier := by
  unfold IsWide tierRank
  refine or_congr_right ?_
  cases p.tier with
  | none => simp
  | some t => cases t <;> simp [Tier.rank]

theorem reach_mono (htenant : q.tenantId = p.tenantId) (h : AtLeast q p) : reach p ≤ reach q := by
  have hwide (hp : IsWide p) : IsWide q := by
    rw [isWide_iff] at hp ⊢
    have htier := h.tier
    rcases h.position with hmanager | hsame
    · exact .inl hmanager
    · rw [hsame]
      exact hp.imp_right fun hthree => by omega
  have hrole := h.role
  unfold reach
  rw [htenant]
  cases hp : p.role <;> cases hq : q.role <;> simp_all [Role.rank]
  all_goals split_ifs <;> simp_all

theorem exists_mayTouch (hless : reach q < reach p) :
    ∃ r, MayTouch p r ∧ ¬ MayTouch q r := by
  have hthree : reach p ≤ 3 := by
    unfold reach
    split_ifs <;> omega
  obtain hp | hp | hp : reach p = 3 ∨ reach p = 2 ∨ reach p = 1 := by omega
  · -- A record of a tenant that is not the callers' own.
    let other := q.tenantId.getD "" ++ "'"
    have hother : q.tenantId ≠ some other := by
      intro h
      have hlength : (q.tenantId.getD "").length = other.length := by rw [h]; rfl
      simp [other] at hlength
    refine ⟨.record other none none, ?_, ?_⟩
    · rw [mayTouch_record_iff]
      omega
    · rw [mayTouch_record_iff]
      simp only [hother, false_and, or_false]
      omega
  · refine ⟨.cronAdmin, ?_, ?_⟩ <;> rw [mayTouch_cronAdmin_iff] <;> omega
  · -- A record of the tenant that is nobody's.
    obtain ⟨tenantId, hsome⟩ := exists_tenantId hp
    refine ⟨.record tenantId none none, ?_, ?_⟩ <;> rw [mayTouch_record_iff]
    · exact .inr ⟨hsome, .inl (by omega)⟩
    · simp only [reduceCtorEq, or_false]
      omega

theorem mayTouch_mono_iff (huser : q.userId = p.userId) (htenant : q.tenantId = p.tenantId) :
    (∀ r, MayTouch p r → MayTouch q r) ↔ reach p ≤ reach q := by
  constructor
  · intro hall
    by_contra hless
    obtain ⟨r, hp, hq⟩ := exists_mayTouch (p := p) (q := q) (by omega)
    exact hq (hall r hp)
  · intro hreach r hp
    cases r with
    | cronAdmin =>
      rw [mayTouch_cronAdmin_iff] at hp ⊢
      omega
    | record tenantId createdBy assignedTo =>
      rw [mayTouch_record_iff] at hp ⊢
      rw [huser, htenant]
      rcases hp with hall | ⟨hsame, hone | hown⟩
      · exact .inl (by omega)
      · exact .inr ⟨hsame, .inl (by omega)⟩
      · exact .inr ⟨hsame, .inr hown⟩

/-! ## Users that join a record -/

theorem MayTouch.joined (h : Joins p.userId r r') (hp : MayTouch p r) : MayTouch p r' := by
  cases h with
  | creator tenantId createdBy assignedTo =>
    rw [mayTouch_record_iff] at hp ⊢
    exact hp.imp_right fun hsame => ⟨hsame.1, .inr (.inl rfl)⟩
  | assignee tenantId createdBy assignedTo =>
    rw [mayTouch_record_iff] at hp ⊢
    exact hp.imp_right fun hsame => ⟨hsame.1, .inr (.inr rfl)⟩

/-- Of two callers that are the same user in the same tenant, one is allowed whatever the other is
exactly if its rights reach as far. So it is if its role, tier and position are at least as high,
and also after the user has become the creator or the assignee of a record. -/
theorem rights_are_monotone (huser : q.userId = p.userId) (htenant : q.tenantId = p.tenantId) :
    ((∀ r, (evaluate p r).allowed = true → (evaluate q r).allowed = true) ↔ reach p ≤ reach q) ∧
    (AtLeast q p → ∀ r, (evaluate p r).allowed = true → (evaluate q r).allowed = true) ∧
    ∀ r r', Joins p.userId r r' → (evaluate p r).allowed = true →
      (evaluate p r').allowed = true ∧ (AtLeast q p → (evaluate q r').allowed = true) := by
  simp only [allowed_iff]
  have hmono := mayTouch_mono_iff huser htenant
  refine ⟨hmono, fun h => hmono.mpr (reach_mono htenant h), fun r r' hjoins hp => ?_⟩
  have hjoined := hp.joined hjoins
  exact ⟨hjoined, fun h => hmono.mpr (reach_mono htenant h) r' hjoined⟩

theorem rights_of_higher_tier :
    let p : Principal := ⟨"u1", .powerUser, some "t1", some .tier2, none⟩
    let q : Principal := ⟨"u1", .user, some "t1", some .tier3, none⟩
    let r : Resource := .record "t1" (some "u2") (some "u1")
    q.userId = p.userId ∧ q.tenantId = p.tenantId ∧ AtLeast q p ∧
      (evaluate p r).allowed = true ∧ (evaluate q r).allowed = true ∧
      (evaluate q (.record "t1" (some "u1") (some "u1"))).allowed = true := by
  intro p q r
  have hleast : AtLeast q p := ⟨by decide, by decide, .inr rfl⟩
  have hp : (evaluate p r).allowed = true := by decide
  obtain ⟨-, hhigher, hjoined⟩ := rights_are_monotone (p := p) (q := q) rfl rfl
  exact ⟨rfl, rfl, hleast, hp, hhigher hleast r hp, (hjoined r _ (.creator _ _ _) hp).2 hleast⟩

end Policy

end Cadence
