import Cadence.Json.Decode
import Cadence.Text.Basic

/-!
# Principals

Who calls, as far as the policy looks at it.
-/

namespace Cadence

inductive Role
  | superadmin | admin | powerUser | user
  deriving DecidableEq, Repr

inductive EmployeeRole
  | manager | employee
  deriving DecidableEq, Repr

inductive Tier
  | tier1 | tier2 | tier3 | tier4
  deriving DecidableEq, Repr

/-- A text that names no value of an attribute. -/
structure UnknownAttribute where
  kind : String
  value : String
  deriving DecidableEq, Repr

def UnknownAttribute.message (e : UnknownAttribute) : String := s!"unknown {e.kind} '{e.value}'"

/-- The word of a text: without blanks at its ends, in lower case. -/
def attributeWord (s : String) : String := Text.lower (Text.trimmed s)

namespace Role

def name : Role → String
  | superadmin => "superadmin"
  | admin => "admin"
  | powerUser => "power-user"
  | user => "user"

def ofName? : String → Option Role
  | "superadmin" => some superadmin
  | "admin" => some admin
  | "power-user" => some powerUser
  | "user" => some user
  | _ => none

/-- The role that a person writes; an underscore may stand for the dash. -/
def parse (s : String) : Except UnknownAttribute Role :=
  match attributeWord s with
  | "power_user" => .ok powerUser
  | word => match ofName? word with
    | some r => .ok r
    | none => .error ⟨"role", s⟩

def isAdmin (r : Role) : Bool := r = admin || r = superadmin

end Role

namespace EmployeeRole

def name : EmployeeRole → String
  | manager => "manager"
  | employee => "employee"

def ofName? : String → Option EmployeeRole
  | "manager" => some manager
  | "employee" => some employee
  | _ => none

def parse (s : String) : Except UnknownAttribute EmployeeRole :=
  match ofName? (attributeWord s) with
  | some r => .ok r
  | none => .error ⟨"employee role", s⟩

end EmployeeRole

namespace Tier

def name : Tier → String
  | tier1 => "tier1"
  | tier2 => "tier2"
  | tier3 => "tier3"
  | tier4 => "tier4"

def ofName? : String → Option Tier
  | "tier1" => some tier1
  | "tier2" => some tier2
  | "tier3" => some tier3
  | "tier4" => some tier4
  | _ => none

def parse (s : String) : Except UnknownAttribute Tier :=
  match ofName? (attributeWord s) with
  | some t => .ok t
  | none => .error ⟨"tier", s⟩

/-- The rank of a tier, from 1. -/
def rank : Tier → Nat
  | tier1 => 1
  | tier2 => 2
  | tier3 => 3
  | tier4 => 4

/-- From the third tier on, every record of the tenant is seen. -/
def hasTenantVisibility (t : Tier) : Bool := 3 ≤ t.rank

end Tier

/-- A caller whose identity is established. -/
structure Principal where
  userId : String
  role : Role
  tenantId : Option String
  tier : Option Tier
  employeeRole : Option EmployeeRole
  deriving DecidableEq, Repr

namespace Principal

def toJson (p : Principal) : Json :=
  .obj [("user_id", .str p.userId), ("role", .str p.role.name), ("tenant_id", .optStr p.tenantId),
    ("tier", .optStr (p.tier.map (·.name))),
    ("employee_role", .optStr (p.employeeRole.map (·.name)))]

open Json in
def ofJson? (v : Json) : Option Principal := do
  let ms ← record? [.required "user_id", .required "role", .defaulted "tenant_id",
    .defaulted "tier", .defaulted "employee_role"] v
  return {
    userId := ← required? asStr? ms "user_id"
    role := ← required? (fun v => (asChoice? v).bind Role.ofName?) ms "role"
    tenantId := ← optional? asStr? ms "tenant_id"
    tier := ← optional? (fun v => (asChoice? v).bind Tier.ofName?) ms "tier"
    employeeRole := ← optional? (fun v => (asChoice? v).bind EmployeeRole.ofName?) ms
      "employee_role" }

end Principal

end Cadence
