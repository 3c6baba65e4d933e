import Cadence.Http.MediaType
import Cadence.Http.Message
import Cadence.Json.Record
import Cadence.Policy.Decision
import Cadence.Service.Error

/-!
# Bodies of requests

A body is a JSON record. It is refused by the first of these: its media type, its size, its grammar,
its fields, and the rules for their values.
-/

namespace Cadence.Http

/-- The longest body in bytes. -/
def maxBody : Nat := 2 * 1024 * 1024

/-- The members of a body of given fields. -/
def readBody (fields : List Json.FieldReader) (r : Request) :
    Except ServiceError (List (String × Json)) := do
  let type := (visible? r.headers "content-type").bind MediaType.read?
  if !(type.any MediaType.isJson) then
    throw (.badRequest "Expected request with `Content-Type: application/json`")
  if maxBody < r.body.utf8ByteSize then throw (.badRequest "Failed to buffer the request body")
  match Json.readRecord fields r.body with
  | .ok members => return members
  | .error .malformed => throw (.badRequest "Failed to parse the request body as JSON")
  | .error .mismatched =>
    throw (.badRequest "Failed to deserialize the JSON body into the target type")

/-- A text of a body that must not be empty. -/
def nonEmpty (members : List (String × Json)) (name complaint : String) :
    Except ServiceError String :=
  match members.lookup name with
  | some (.str "") | none => .error (.validationErrors [⟨name, complaint⟩])
  | some v => .ok ((Json.asStr? v).getD "")

/-- The refresh token that a request brings. -/
def refreshTokenOf (r : Request) : Except ServiceError String := do
  let members ← readBody [.text "refresh_token"] r
  nonEmpty members "refresh_token" "Refresh token cannot be empty"

/-- The record that a request asks about. -/
def recordOf (r : Request) : Except ServiceError Resource := do
  let members ← readBody
    [.text "tenant_id", .optionalText "created_by", .optionalText "assigned_to"] r
  let tenant ← nonEmpty members "tenant_id" "Tenant is required"
  let text (name : String) := (members.lookup name).bind Json.asStr?
  return .record tenant (text "created_by") (text "assigned_to")

end Cadence.Http
