import Cadence.Service.Error

/-!
# Errors of the configuration
-/

namespace Cadence

inductive ConfigError
  | fileNotFound (reason : String)
  | parse (reason : String)
  /-- a value is out of range or malformed -/
  | validation (field reason : String)
  | environment (reason : String)
  | mutualExclusivity (reason : String)
  | other (reason : String)
  deriving DecidableEq, Repr

namespace ConfigError

def message : ConfigError → String
  | fileNotFound reason => "Configuration file not found: " ++ reason
  | parse reason => "Failed to parse configuration: " ++ reason
  | validation field reason => s!"Validation error: {field} - {reason}"
  | environment reason => "Environment variable error: " ++ reason
  | mutualExclusivity reason => "Mutual exclusivity error: " ++ reason
  | other reason => "Configuration error: " ++ reason

/-- The setting that is wrong, where it is known. -/
def field? : ConfigError → Option String
  | validation field _ => some field
  | _ => none

def toError (e : ConfigError) : ServiceError :=
  .configuration (e.field?.getD "configuration") [e.message]

end ConfigError

end Cadence
