import Cadence.Json.Basic

/-!
# Errors of the service

The causes for which an operation of the service fails, with what a client is told of each: a
status, a code, a message and details. What lies beneath a failure of the service itself is kept as
a chain of texts, outermost first, and is not among what a client is told.
-/

namespace Cadence

/-- One field of a request and what is wrong with it. -/
structure FieldError where
  field : String
  message : String
  deriving DecidableEq, Repr

inductive ServiceError
  | notFound (entity field value : String)
  | duplicate (entity field value : String)
  | validation (field reason : String)
  | validationErrors (errors : List FieldError)
  | badRequest (message : String)
  | unauthorized (message : String)
  | forbidden (message : String)
  | database (operation : String) (causes : List String)
  | configuration (key : String) (causes : List String)
  | connectionPool (causes : List String)
  | internal (causes : List String)
  deriving DecidableEq, Repr

namespace ServiceError

/-- The text of the error alone, without its causes. -/
def message : ServiceError → String
  | notFound entity field value => s!"Resource not found: {entity} with {field}={value}"
  | duplicate entity field value => s!"Duplicate entry: {entity}.{field} = '{value}' already exists"
  | validation field reason => s!"Validation failed for {field}: {reason}"
  | validationErrors errors => s!"Validation failed for {errors.length} field(s)"
  | badRequest message => "Bad request: " ++ message
  | unauthorized message => "Unauthorized: " ++ message
  | forbidden message => "Forbidden: " ++ message
  | database operation _ => "Database operation failed: " ++ operation
  | configuration key _ => "Configuration error: " ++ key
  | connectionPool _ => "Connection pool error"
  | internal _ => "Internal error"

/-- What lies beneath, outermost first. -/
def causes : ServiceError → List String
  | database _ causes | configuration _ causes | connectionPool causes | internal causes => causes
  | _ => []

/-- The text of the error and of all that lies beneath. -/
def describe (e : ServiceError) : String := ": ".intercalate (e.message :: e.causes)

def status : ServiceError → Nat
  | notFound .. => 404
  | duplicate .. => 409
  | validation .. | validationErrors _ | badRequest _ => 400
  | unauthorized _ => 401
  | forbidden _ => 403
  | database .. | configuration .. | internal _ => 500
  | connectionPool _ => 503

def code : ServiceError → String
  | notFound .. => "NOT_FOUND"
  | duplicate .. => "DUPLICATE_ENTRY"
  | validation .. | validationErrors _ => "VALIDATION_ERROR"
  | badRequest _ => "BAD_REQUEST"
  | unauthorized _ => "UNAUTHORIZED"
  | forbidden _ => "FORBIDDEN"
  | database .. => "DATABASE_ERROR"
  | configuration .. => "CONFIGURATION_ERROR"
  | connectionPool _ => "SERVICE_UNAVAILABLE"
  | internal _ => "INTERNAL_ERROR"

end ServiceError

/-- What a client is told of an error. -/
structure ErrorBody where
  code : String
  message : String
  details : Option Json
  requestId : Option String
  deriving Repr

namespace ErrorBody

def plain (code message : String) : ErrorBody := ⟨code, message, none, none⟩

def toJson (b : ErrorBody) : Json :=
  .obj (Json.present
    [("code", some (.str b.code)), ("message", some (.str b.message)), ("details", b.details),
      ("request_id", b.requestId.map .str)])

/-- The details of an error as an object of texts. -/
def texts (members : List (String × String)) : Json :=
  .obj (members.map fun (n, s) => (n, .str s))

/-- What a client is told of an error of the service. -/
def ofError (e : ServiceError) : ErrorBody :=
  let told (message : String) (details : Option Json) : ErrorBody := ⟨e.code, message, details, none⟩
  match e with
  | .notFound entity field value =>
    told (entity ++ " not found") (texts [("entity", entity), ("field", field), ("value", value)])
  | .duplicate entity field _ =>
    told s!"{entity} with this {field} already exists" (texts [("entity", entity), ("field", field)])
  | .validation field reason => told reason (texts [("field", field)])
  | .validationErrors errors =>
    told "Request validation failed" (some (.obj [("errors",
      .arr (errors.map fun e => texts [("field", e.field), ("message", e.message)]))]))
  | .badRequest message | .unauthorized message | .forbidden message => told message none
  | .database operation _ =>
    told ("Database operation failed: " ++ operation) (texts [("operation", operation)])
  | .configuration key _ => told ("Configuration error: " ++ key) (texts [("key", key)])
  | .connectionPool _ => told "Database connection unavailable" none
  | .internal _ => told "An internal error occurred" none

end ErrorBody

end Cadence
