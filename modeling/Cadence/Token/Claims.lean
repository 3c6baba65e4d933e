import Cadence.Json.Record
import Cadence.Policy.Principal

/-!
# Claims

What a token says: who its bearer is, what it is for, and from when to when it holds. Times are
seconds from the start of 1970.
-/

namespace Cadence

/-- What a token is for. -/
inductive TokenKind
  /-- short-lived, for calls -/
  | access
  /-- long-lived, for a new pair of tokens -/
  | refresh
  deriving DecidableEq, Repr

namespace TokenKind

def name : TokenKind → String
  | access => "access"
  | refresh => "refresh"

def title : TokenKind → String
  | access => "Access"
  | refresh => "Refresh"

def ofName? : String → Option TokenKind
  | "access" => some access
  | "refresh" => some refresh
  | _ => none

end TokenKind

structure Claims where
  principal : Principal
  kind : TokenKind
  issuedAt : Int
  expiresAt : Int
  deriving DecidableEq, Repr

namespace Claims

def toJson (c : Claims) : Json :=
  .obj (Json.present
    [("sub", some (.str c.principal.userId)), ("role", some (.str c.principal.role.name)),
      ("tenant_id", c.principal.tenantId.map .str),
      ("tier", c.principal.tier.map fun t => .str t.name),
      ("employee_role", c.principal.employeeRole.map fun r => .str r.name),
      ("token_type", some (.str c.kind.name)), ("iat", some (.int c.issuedAt)),
      ("exp", some (.int c.expiresAt))])

open Json in
/-- The claims of the members of an object. -/
def ofMembers? (ms : List (String × Json)) : Option Claims := do
  return {
    principal := {
      userId := ← required? asStr? ms "sub"
      role := ← required? (fun v => (asChoice? v).bind Role.ofName?) ms "role"
      tenantId := ← optional? asStr? ms "tenant_id"
      tier := ← optional? (fun v => (asChoice? v).bind Tier.ofName?) ms "tier"
      employeeRole := ← optional? (fun v => (asChoice? v).bind EmployeeRole.ofName?) ms
        "employee_role" }
    kind := ← required? (fun v => (asChoice? v).bind TokenKind.ofName?) ms "token_type"
    issuedAt := ← required? asI64? ms "iat"
    expiresAt := ← required? asI64? ms "exp" }

/-- The members that are looked at, the audience and its like included. -/
def readers : List Json.FieldReader :=
  ["sub", "role", "tenant_id", "tier", "employee_role", "token_type", "iat", "exp", "aud", "iss",
    "nbf"].map .optionalAny

/-- An audience: a text or an array of texts. -/
def isAudience : Json → Bool
  | .str _ => true
  | .arr items => items.all fun v => (Json.asStr? v).isSome
  | _ => false

/-- The claims of a text, and whether they name an audience. They are an object, never an array. -/
def read? (s : String) : Option (Claims × Bool) :=
  if (Json.skipGaps s.toList).head? = some '[' then none
  else
    match Json.readRecord readers s with
    | .ok ms => (ofMembers? ms).map fun c => (c, (ms.lookup "aud").any isAudience)
    | .error _ => none

end Claims

end Cadence
