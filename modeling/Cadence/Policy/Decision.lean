import Cadence.Policy.Principal
import Cadence.Service.Error

/-!
# Decisions

Who may do what. A decision is reached by rules that are looked at in a fixed order; the first rule
that settles the matter is the last one of the trail.
-/

namespace Cadence

/-- What a caller wants to touch. -/
inductive Resource
  /-- running, listing and seeding jobs -/
  | cronAdmin
  /-- a record that belongs to a tenant -/
  | record (tenantId : String) (createdBy assignedTo : Option String)
  deriving DecidableEq, Repr

inductive DecisionReason
  | superadmin | admin | adminRequired | missingTenant | crossTenant | tenantWideVisibility | owner
  | assignee | notPermitted
  deriving DecidableEq, Repr

def DecisionReason.name : DecisionReason → String
  | superadmin => "superadmin"
  | admin => "admin"
  | adminRequired => "admin_required"
  | missingTenant => "missing_tenant"
  | crossTenant => "cross_tenant"
  | tenantWideVisibility => "tenant_wide_visibility"
  | owner => "owner"
  | assignee => "assignee"
  | notPermitted => "not_permitted"

structure Decision where
  allowed : Bool
  reason : DecisionReason
  deriving DecidableEq, Repr

/-- A rule that was looked at, and whether it holds. -/
structure PolicyCheck where
  check : String
  passed : Bool
  detail : String
  deriving DecidableEq, Repr

/-- A decision and the trail that led to it; the last check settled the matter. -/
structure Diagnosis where
  decision : Decision
  checks : List PolicyCheck
  deriving DecidableEq, Repr

namespace Policy

/-- A rule: its check, and the reasons for which it settles the matter when it holds and when it
does not; without a reason the next rule is looked at. -/
structure Rule where
  check : PolicyCheck
  grants : Option DecisionReason
  denies : Option DecisionReason
  deriving DecidableEq, Repr

/-- The reason for which a rule settles the matter, if it does. -/
def Rule.verdict? (r : Rule) : Option Decision :=
  if r.check.passed then r.grants.map (⟨true, ·⟩) else r.denies.map (⟨false, ·⟩)

/-- The rules up to the first one that settles the matter; where none does, nothing is permitted. -/
def walk : List Rule → Diagnosis
  | [] => ⟨⟨false, .notPermitted⟩, []⟩
  | r :: rest =>
    match r.verdict? with
    | some d => ⟨d, [r.check]⟩
    | none =>
      let next := walk rest
      ⟨next.decision, r.check :: next.checks⟩

/-- A rule that grants. -/
def granting (name : String) (holds : Bool) (detail : String) (reason : DecisionReason) : Rule :=
  ⟨⟨name, holds, detail⟩, some reason, none⟩

/-- A rule without which nothing is granted. -/
def gate (name : String) (holds : Bool) (detail : String) (reason : DecisionReason) : Rule :=
  ⟨⟨name, holds, detail⟩, none, some reason⟩

def roleDetail (p : Principal) : String := "role is " ++ p.role.name

/-- The one rule of job administration. -/
def adminRules (p : Principal) : List Rule :=
  [⟨⟨"admin_role", p.role.isAdmin, roleDetail p⟩,
    some (if p.role = .superadmin then .superadmin else .admin), some .adminRequired⟩]

/-- The caller sees every record of the tenant. -/
def seesTenant (p : Principal) : Bool :=
  p.employeeRole = some .manager || p.tier.any (·.hasTenantVisibility)

/-- The rules for records. -/
def recordRules (p : Principal) (tenantId : String) (createdBy assignedTo : Option String) :
    List Rule :=
  [granting "superadmin" (p.role = .superadmin) (roleDetail p) .superadmin,
    gate "has_tenant" p.tenantId.isSome
      (match p.tenantId with
        | some t => "caller tenant is " ++ t
        | none => "caller has no tenant") .missingTenant,
    gate "same_tenant" (p.tenantId = some tenantId) ("record tenant is " ++ tenantId) .crossTenant,
    granting "admin" (p.role = .admin) (roleDetail p) .admin,
    granting "tenant_wide_visibility" (seesTenant p)
      ("employee_role is " ++ (p.employeeRole.map (·.name)).getD "none" ++ ", tier is " ++
        (p.tier.map (·.name)).getD "none") .tenantWideVisibility,
    granting "owner" (createdBy = some p.userId) ("created_by is " ++ createdBy.getD "none") .owner,
    granting "assignee" (assignedTo = some p.userId) ("assigned_to is " ++ assignedTo.getD "none")
      .assignee]

/-- The decision with its trail. -/
def diagnose (p : Principal) : Resource → Diagnosis
  | .cronAdmin => walk (adminRules p)
  | .record tenantId createdBy assignedTo => walk (recordRules p tenantId createdBy assignedTo)

def evaluate (p : Principal) (r : Resource) : Decision := (diagnose p r).decision

/-- Nothing where the caller is allowed, and else what the caller is told. -/
def authorize (p : Principal) (r : Resource) : Except ServiceError Unit :=
  if (evaluate p r).allowed then .ok ()
  else
    .error (.forbidden (match r with
      | .cronAdmin => "Admin or superadmin role required"
      | .record .. => "You do not have access to this record"))

end Policy

/-! ## Wire form -/

def Decision.toJson (d : Decision) : Json :=
  .obj [("allowed", .bool d.allowed), ("reason", .str d.reason.name)]

def PolicyCheck.toJson (c : PolicyCheck) : Json :=
  .obj [("check", .str c.check), ("passed", .bool c.passed), ("detail", .str c.detail)]

def Diagnosis.toJson (d : Diagnosis) : Json :=
  .obj [("decision", d.decision.toJson), ("checks", .arr (d.checks.map (·.toJson)))]

namespace Resource

def toJson : Resource → Json
  | cronAdmin => .obj [("type", .str "cron_admin")]
  | record tenantId createdBy assignedTo =>
    .obj [("type", .str "record"), ("tenant_id", .str tenantId), ("created_by", .optStr createdBy),
      ("assigned_to", .optStr assignedTo)]

def recordFields : List Json.FieldSpec :=
  [.required "tenant_id", .defaulted "created_by", .defaulted "assigned_to"]

open Json in
def recordOf? (ms : List (String × Json)) : Option Resource := do
  return .record (← required? asStr? ms "tenant_id") (← optional? asStr? ms "created_by")
    (← optional? asStr? ms "assigned_to")

open Json in
/-- The member `type` tells which resource it is; in an array it is the first item. -/
def ofJson? : Json → Option Resource
  | .obj members => do
    let ms ← record? (.required "type" :: recordFields) (.obj members)
    match ← required? asStr? ms "type" with
    | "cron_admin" => return .cronAdmin
    | "record" => recordOf? ms
    | _ => none
  | .arr (.str "cron_admin" :: _) => some .cronAdmin
  | .arr (.str "record" :: items) => (record? recordFields (.arr items)).bind recordOf?
  | _ => none

end Resource

end Cadence
