import Cadence.Policy.Decision

/-!
# Trails of decisions

A decision and the checks that led to it tell the same story. Which checks there are, what each one
asks and which reason belongs to its result is said here without the rules.
-/

namespace Cadence.Policy

/-! ## What a trail is about -/

/-- The checks for a resource, in their order. -/
def checkNames : Resource → List String
  | .cronAdmin => ["admin_role"]
  | .record .. =>
    ["superadmin", "has_tenant", "same_tenant", "admin", "tenant_wide_visibility", "owner", "assignee"]

/-- The caller sees all records of the tenant, by position or by tier. -/
def IsWide (p : Principal) : Prop :=
  p.employeeRole = some .manager ∨ p.tier = some .tier3 ∨ p.tier = some .tier4

/-- What a check asks. -/
def Asks (p : Principal) : Resource → String → Prop
  | .cronAdmin, "admin_role" => p.role = .admin ∨ p.role = .superadmin
  | .record .., "superadmin" => p.role = .superadmin
  | .record .., "has_tenant" => ∃ t, p.tenantId = some t
  | .record tenantId .., "same_tenant" => p.tenantId = some tenantId
  | .record .., "admin" => p.role = .admin
  | .record .., "tenant_wide_visibility" => IsWide p
  | .record _ createdBy _, "owner" => createdBy = some p.userId
  | .record _ _ assignedTo, "assignee" => assignedTo = some p.userId
  | _, _ => False

/-- The check is one without which nothing is granted. -/
def IsGate (name : String) : Prop := name = "has_tenant" ∨ name = "same_tenant"

instance (name : String) : Decidable (IsGate name) := inferInstanceAs (Decidable (_ ∨ _))

/-- The reason that belongs to a check and its result, if the matter can end there. -/
def reasonOf (p : Principal) : String → Bool → Option DecisionReason
  | "admin_role", true => some (if p.role = .superadmin then .superadmin else .admin)
  | "admin_role", false => some .adminRequired
  | "superadmin", true => some .superadmin
  | "has_tenant", false => some .missingTenant
  | "same_tenant", false => some .crossTenant
  | "admin", true => some .admin
  | "tenant_wide_visibility", true => some .tenantWideVisibility
  | "owner", true => some .owner
  | "assignee", true => some .assignee
  | "assignee", false => some .notPermitted
  | _, _ => none

/-- Who may touch a resource. -/
def MayTouch (p : Principal) : Resource → Prop
  | .cronAdmin => p.role = .admin ∨ p.role = .superadmin
  | .record tenantId createdBy assignedTo =>
    p.role = .superadmin ∨ p.tenantId = some tenantId ∧
      (p.role = .admin ∨ IsWide p ∨ createdBy = some p.userId ∨ assignedTo = some p.userId)

/-! ## Walking along rules -/

theorem walk_cases (rules : List Rule) :
    (∃ before x after d, rules = before ++ x :: after ∧ (∀ y ∈ before, y.verdict? = none) ∧
      x.verdict? = some d ∧ walk rules = ⟨d, before.map (·.check) ++ [x.check]⟩) ∨
    (∀ y ∈ rules, y.verdict? = none) ∧
      walk rules = ⟨⟨false, .notPermitted⟩, rules.map (·.check)⟩ := by
  induction rules with
  | nil => exact .inr ⟨fun _ hy => absurd hy List.not_mem_nil, rfl⟩
  | cons x rest ih =>
    cases hverdict : x.verdict? with
    | some d =>
      refine .inl ⟨[], x, rest, d, rfl, fun _ hy => absurd hy List.not_mem_nil, hverdict, ?_⟩
      unfold walk
      rw [hverdict]
      rfl
    | none =>
      have hwalk : walk (x :: rest) = ⟨(walk rest).decision, x.check :: (walk rest).checks⟩ := by
        rw [walk, hverdict]
      rw [hwalk]
      rcases ih with ⟨before, y, after, d, rfl, hbefore, hy, hrest⟩ | ⟨hall, hrest⟩
      · refine .inl ⟨x :: before, y, after, d, rfl, ?_, hy, by rw [hrest]; rfl⟩
        exact List.forall_mem_cons.mpr ⟨hverdict, hbefore⟩
      · exact .inr ⟨List.forall_mem_cons.mpr ⟨hverdict, hall⟩, by rw [hrest]; rfl⟩

@[simp] theorem walk_nil_allowed : (walk []).decision.allowed = false := rfl

@[simp] theorem walk_granting_allowed (name : String) (holds : Bool) (detail : String)
    (reason : DecisionReason) (rest : List Rule) :
    (walk (granting name holds detail reason :: rest)).decision.allowed =
      (holds || (walk rest).decision.allowed) := by
  cases holds <;> rfl

@[simp] theorem walk_gate_allowed (name : String) (holds : Bool) (detail : String)
    (reason : DecisionReason) (rest : List Rule) :
    (walk (gate name holds detail reason :: rest)).decision.allowed =
      (holds && (walk rest).decision.allowed) := by
  cases holds <;> rfl

/-! ## The rules of a resource -/

/-- The rules that are looked at for a resource. -/
def rulesFor (p : Principal) : Resource → List Rule
  | .cronAdmin => adminRules p
  | .record tenantId createdBy assignedTo => recordRules p tenantId createdBy assignedTo

theorem diagnose_eq (p : Principal) (r : Resource) : diagnose p r = walk (rulesFor p r) := by
  cases r <;> rfl

variable {p : Principal} {r : Resource} {x : Rule} {d : Decision}

theorem isAdmin_iff {role : Role} : role.isAdmin = true ↔ role = .admin ∨ role = .superadmin := by
  unfold Role.isAdmin
  rw [Bool.or_eq_true, decide_eq_true_eq, decide_eq_true_eq]

theorem seesTenant_iff : seesTenant p = true ↔ IsWide p := by
  unfold seesTenant IsWide
  rw [Bool.or_eq_true, decide_eq_true_eq]
  refine or_congr_right ?_
  cases p.tier with
  | none => decide
  | some t => cases t <;> decide

theorem names_rulesFor (p : Principal) (r : Resource) :
    (rulesFor p r).map (·.check.check) = checkNames r := by
  cases r <;> rfl

theorem passed_iff (hx : x ∈ rulesFor p r) : x.check.passed = true ↔ Asks p r x.check.check := by
  cases r with
  | cronAdmin =>
    obtain rfl := List.mem_singleton.mp hx
    exact isAdmin_iff
  | record tenantId createdBy assignedTo =>
    unfold rulesFor recordRules at hx
    simp only [List.mem_cons, List.not_mem_nil, or_false] at hx
    rcases hx with rfl | rfl | rfl | rfl | rfl | rfl | rfl
    · exact decide_eq_true_iff
    · exact Option.isSome_iff_exists
    · exact decide_eq_true_iff
    · exact decide_eq_true_iff
    · exact seesTenant_iff
    · exact decide_eq_true_iff
    · exact decide_eq_true_iff

/-- A rule that settles the matter does so in the sense of its check, for the reason that belongs to
it. A rule that does not is a gate that is open, or a grant that is not given. -/
structure Rule.Tells (p : Principal) (x : Rule) : Prop where
  settled : ∀ d, x.verdict? = some d →
    d.allowed = x.check.passed ∧ reasonOf p x.check.check x.check.passed = some d.reason
  unsettled : x.verdict? = none → (x.check.passed = true ↔ IsGate x.check.check)

theorem tells_granting {name : String} {holds : Bool} {detail : String} {reason : DecisionReason}
    (hgate : ¬ IsGate name) (hreason : reasonOf p name true = some reason) :
    (granting name holds detail reason).Tells p := by
  cases holds with
  | true =>
    refine ⟨fun d hd => ?_, nofun⟩
    cases hd
    exact ⟨rfl, hreason⟩
  | false => exact ⟨nofun, fun _ => iff_of_false Bool.false_ne_true hgate⟩

theorem tells_gate {name : String} {holds : Bool} {detail : String} {reason : DecisionReason}
    (hgate : IsGate name) (hreason : reasonOf p name false = some reason) :
    (gate name holds detail reason).Tells p := by
  cases holds with
  | true => exact ⟨nofun, fun _ => iff_of_true rfl hgate⟩
  | false =>
    refine ⟨fun d hd => ?_, nofun⟩
    cases hd
    exact ⟨rfl, hreason⟩

theorem tells_adminRule {holds : Bool} {detail : String} :
    Rule.Tells p ⟨⟨"admin_role", holds, detail⟩,
      some (if p.role = .superadmin then .superadmin else .admin), some .adminRequired⟩ := by
  cases holds <;>
  · refine ⟨fun d hd => ?_, nofun⟩
    cases hd
    exact ⟨rfl, rfl⟩

theorem tells_of_mem (hx : x ∈ rulesFor p r) : x.Tells p := by
  cases r with
  | cronAdmin =>
    obtain rfl := List.mem_singleton.mp hx
    exact tells_adminRule
  | record tenantId createdBy assignedTo =>
    unfold rulesFor recordRules at hx
    simp only [List.mem_cons, List.not_mem_nil, or_false] at hx
    rcases hx with rfl | rfl | rfl | rfl | rfl | rfl | rfl
    · exact tells_granting (by decide) rfl
    · exact tells_gate (by decide) rfl
    · exact tells_gate (by decide) rfl
    · exact tells_granting (by decide) rfl
    · exact tells_granting (by decide) rfl
    · exact tells_granting (by decide) rfl
    · exact tells_granting (by decide) rfl

theorem exists_last_of_unsettled (h : ∀ y ∈ rulesFor p r, y.verdict? = none) :
    ∃ before x, rulesFor p r = before ++ [x] ∧ x.check.check = "assignee" ∧
      x.check.passed = false := by
  cases r with
  | cronAdmin =>
    -- The rule of job administration settles every matter.
    have hnone := h _ List.mem_cons_self
    unfold Rule.verdict? at hnone
    cases hpassed : p.role.isAdmin <;>
    · rw [hpassed] at hnone
      cases hnone
  | record tenantId createdBy assignedTo =>
    let x := granting "assignee" (assignedTo = some p.userId)
      ("assigned_to is " ++ assignedTo.getD "none") .assignee
    let before := (recordRules p tenantId createdBy assignedTo).dropLast
    have hx : x ∈ rulesFor p (.record tenantId createdBy assignedTo) :=
      List.mem_append_right before (List.mem_singleton_self x)
    have hpassed : x.check.passed = true ↔ IsGate "assignee" := (tells_of_mem hx).unsettled (h x hx)
    exact ⟨before, x, rfl, rfl, Bool.eq_false_iff.mpr fun h => absurd (hpassed.mp h) (by decide)⟩

/-! ## Decision and trail -/

theorem allowed_iff (p : Principal) (r : Resource) :
    (evaluate p r).allowed = true ↔ MayTouch p r := by
  unfold evaluate
  rw [diagnose_eq]
  cases r with
  | cronAdmin =>
    have hallowed : (walk (adminRules p)).decision.allowed = p.role.isAdmin := by
      unfold adminRules
      cases p.role.isAdmin <;> rfl
    exact hallowed ▸ isAdmin_iff
  | record tenantId createdBy assignedTo =>
    have htenant : p.tenantId.isSome = true ∧ p.tenantId = some tenantId ↔
        p.tenantId = some tenantId :=
      and_iff_right_of_imp fun h => h ▸ rfl
    unfold rulesFor recordRules MayTouch
    simp only [walk_granting_allowed, walk_gate_allowed, walk_nil_allowed, Bool.or_eq_true,
      Bool.and_eq_true, decide_eq_true_eq, seesTenant_iff, Bool.false_eq_true, or_false, ← and_assoc,
      htenant]

/-- The trail of a decision is a first part of the checks for the resource, each with the result of
what it asks. Before the last check every gate was open and nothing else held; the last check
settled the matter, in its own sense and for the reason that belongs to it. Allowed is who may touch
the resource. -/
theorem trail_tells_decision (p : Principal) (r : Resource) :
    ((evaluate p r).allowed = true ↔ MayTouch p r) ∧
    ∃ before last, (diagnose p r).checks = before ++ [last] ∧
      (before ++ [last]).map (·.check) <+: checkNames r ∧
      (∀ c ∈ before ++ [last], c.passed = true ↔ Asks p r c.check) ∧
      (∀ c ∈ before, c.passed = true ↔ IsGate c.check) ∧
      (evaluate p r).allowed = last.passed ∧
      reasonOf p last.check last.passed = some (evaluate p r).reason := by
  refine ⟨allowed_iff p r, ?_⟩
  unfold evaluate
  rw [diagnose_eq, ← names_rulesFor p r]
  -- The rules that were looked at are the first ones, and none before the last settles the matter.
  suffices hlooked : ∃ before x after, rulesFor p r = before ++ x :: after ∧
      (∀ y ∈ before, y.verdict? = none) ∧
      (walk (rulesFor p r)).checks = before.map (·.check) ++ [x.check] ∧
      (walk (rulesFor p r)).decision.allowed = x.check.passed ∧
      reasonOf p x.check.check x.check.passed = some (walk (rulesFor p r)).decision.reason by
    obtain ⟨before, x, after, hrules, hbefore, hchecks, hdecision⟩ := hlooked
    rw [List.append_cons] at hrules
    have hmem : ∀ y ∈ before ++ [x], y ∈ rulesFor p r := fun y hy =>
      hrules ▸ List.mem_append_left after hy
    refine ⟨before.map (·.check), x.check, hchecks, ?_, ?_, ?_, hdecision⟩
    · have hfirst : before ++ [x] <+: rulesFor p r := hrules ▸ List.prefix_append _ _
      rw [← List.map_singleton (f := Rule.check), ← List.map_append, List.map_map]
      exact hfirst.map _
    · rw [← List.map_singleton (f := Rule.check), ← List.map_append, List.forall_mem_map]
      exact fun y hy => passed_iff (hmem y hy)
    · rw [List.forall_mem_map]
      exact fun y hy =>
        (tells_of_mem (hmem y (List.mem_append_left _ hy))).unsettled (hbefore y hy)
  rcases walk_cases (rulesFor p r) with
    ⟨before, x, after, d, hrules, hbefore, hx, hwalk⟩ | ⟨hall, hwalk⟩
  · have hmem : x ∈ rulesFor p r := hrules ▸ List.mem_append_cons_self
    rw [hwalk]
    exact ⟨before, x, after, hrules, hbefore, rfl, (tells_of_mem hmem).settled d hx⟩
  · obtain ⟨before, x, hrules, hname, hpassed⟩ := exists_last_of_unsettled hall
    rw [hwalk]
    refine ⟨before, x, [], hrules, ?_, by rw [hrules, List.map_append]; rfl, hpassed.symm, ?_⟩
    · exact fun y hy => hall y (hrules ▸ List.mem_append_left _ hy)
    · rw [hname, hpassed]
      rfl

end Cadence.Policy
