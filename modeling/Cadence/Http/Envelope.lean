import Cadence.Http.Message
import Cadence.Service.Error
import Cadence.Text.Basic

/-!
# The error envelope

Every error leaves the service as a JSON object with a code, a message and the id of the request. An
error of the service says by itself what it tells; a bare response gets a body that fits its status.
-/

namespace Cadence.Http

/-- What an endpoint comes up with: a response, or an error of the service. -/
abbrev Reply := Except ServiceError Response

namespace Envelope

/-- The code and the message for a bare error response. -/
def defaults (status : Nat) : String × String :=
  match status with
  | 400 => ("BAD_REQUEST", "Bad request - invalid or malformed request")
  | 404 => ("NOT_FOUND", "The requested resource was not found")
  | 405 => ("METHOD_NOT_ALLOWED", "HTTP method not allowed for this endpoint")
  | 413 => ("PAYLOAD_TOO_LARGE", "Request payload too large")
  | 415 => ("UNSUPPORTED_MEDIA_TYPE", "Unsupported media type")
  | 503 => ("SERVICE_UNAVAILABLE", "Service temporarily unavailable")
  | _ =>
    if 500 ≤ status then ("INTERNAL_SERVER_ERROR", "An internal server error occurred")
    else ("UNKNOWN_ERROR", "An unknown error occurred")

/-- The longest body in bytes that is kept as a message. -/
def maxMessage : Nat := 64 * 1024

/-- What a client is told of a bare error response. Its own text is passed on, unless the fault is
the server's. -/
def bareBody (r : Response) : ErrorBody :=
  let (code, message) := defaults r.status
  let own := if r.body.utf8ByteSize ≤ maxMessage then Text.trimmed r.body else ""
  .plain code (if own.isEmpty || 500 ≤ r.status then message else own)

/-- The text stands somewhere among the characters. -/
def contains (text : List Char) : List Char → Bool
  | [] => text.isEmpty
  | c :: cs => text.isPrefixOf (c :: cs) || contains text cs

/-- The response says that it is JSON already. -/
def saysJson (r : Response) : Bool :=
  match visible? r.headers "content-type" with
  | some v => contains jsonType.toList v.toList
  | none => false

/-- A body with the id of the request, if there is one. -/
def stamped (requestId : Option String) (b : ErrorBody) : ErrorBody :=
  match requestId with
  | some id => { b with requestId := some id }
  | none => b

/-- The response that an error of the service is turned into. -/
def ofError (requestId : Option String) (e : ServiceError) : Response :=
  .json e.status (stamped requestId (.ofError e)).toJson

/-- The response that leaves the service. -/
def enclose (requestId : Option String) : Reply → Response
  | .error e => ofError requestId e
  | .ok r =>
    if r.isError && !saysJson r then .json r.status (stamped requestId (bareBody r)).toJson else r

end Envelope

end Cadence.Http
