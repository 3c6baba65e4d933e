import Cadence.Files.Tree
import Cadence.Policy.Principal
import Cadence.Settings.Environment
import Cadence.Text.Basic
import Cadence.Url.Read

/-!
# Values on the command line

What may be written after an option. A value is checked when the command line is read, before any
settings are loaded.
-/

namespace Cadence.CommandLine

/-- Why a value is refused. -/
inductive ValueFault
  | portZero
  | port (value : String)
  | rollbackSteps (value : String)
  | noRollbackSteps
  | tooManyRollbackSteps
  | hostEmpty
  | hostLong
  | hostAddress (value : String)
  | hostName (value : String)
  | url (value : String) (fault : Url.Fault)
  | urlScheme (scheme : String)
  | subjectEmpty
  | subjectBlank (value : String)
  | fileMissing (value : String)
  | fileDirectory (value : String)
  /-- not one of the words of an option -/
  | word (value : String)
  | unknown (word : UnknownAttribute)
  deriving DecidableEq, Repr

/-- The most migrations that are rolled back at once. -/
def maxRollbackSteps : Nat := 100

/-- The most bytes of a host name. -/
def maxHostLength : Nat := 253

namespace ValueFault

def message : ValueFault → String
  | portZero => "Port must be between 1 and 65535. Port 0 is not allowed."
  | port v => s!"Port must be a valid number between 1 and 65535, got: '{v}'"
  | rollbackSteps v => s!"Rollback steps must be a valid positive number, got: '{v}'"
  | noRollbackSteps => "Rollback steps must be greater than 0"
  | tooManyRollbackSteps => s!"Rollback steps cannot exceed {maxRollbackSteps}"
  | hostEmpty => "Host address cannot be empty"
  | hostLong => s!"Host address is too long (maximum {maxHostLength} characters)"
  | hostAddress v => s!"Invalid IPv4 address format: '{v}'"
  | hostName v => s!"Invalid host name: '{v}'"
  | url v fault => s!"Invalid URL '{v}': {fault.message}"
  | urlScheme s => s!"URL scheme must be http or https, got '{s}'"
  | subjectEmpty => "Subject cannot be empty"
  | subjectBlank v => s!"Subject cannot contain whitespace: '{v}'"
  | fileMissing v => s!"Configuration file does not exist: '{v}'"
  | fileDirectory v => s!"Configuration path is not a file: '{v}'"
  | word v => s!"invalid value '{v}'"
  | unknown w => w.message

end ValueFault

/-! ## Numbers -/

def port (value : String) : Except ValueFault Nat :=
  match Text.unsigned? Text.u16Max value.toList with
  | none => .error (.port value)
  | some 0 => .error .portZero
  | some n => .ok n

def rollbackSteps (value : String) : Except ValueFault Nat :=
  match Text.unsigned? Text.u32Max value.toList with
  | none => .error (.rollbackSteps value)
  | some n =>
    if n = 0 then .error .noRollbackSteps
    else if maxRollbackSteps < n then .error .tooManyRollbackSteps
    else .ok n

/-! ## Hosts, services and users -/

/-- A part of a host name: letters, digits and inner hyphens. -/
def isLabel (cs : List Char) : Bool :=
  !cs.isEmpty && cs.head? != some '-' && cs.getLast? != some '-' &&
    cs.all fun c => c.isAlphanum || c = '-'

/-- An address or a host name, without the blanks around it. Digits and points that are no address
are taken for a misspelt one. -/
def host (value : String) : Except ValueFault String :=
  let cs := Text.trim value.toList
  let text := String.ofList cs
  if cs.isEmpty then .error .hostEmpty
  else if Url.isAddress cs then .ok text
  else if maxHostLength < text.utf8ByteSize then .error .hostLong
  else if cs.all fun c => c.isDigit || c = '.' then .error (.hostAddress value)
  else if (Text.splitOn '.' cs).all isLabel then .ok text
  else .error (.hostName value)

/-- A text without the slashes at its end. -/
def withoutSlashes (s : String) : String :=
  String.ofList (s.toList.reverse.dropWhile (· = '/')).reverse

/-- The base of a service in one of the web's schemes. It is passed on as it is written, without the
slashes at its end. -/
def serviceUrl [HostNames] (value : String) : Except ValueFault String :=
  match Url.parse value with
  | .error fault => .error (.url value fault)
  | .ok u =>
    if u.scheme = "http" ∨ u.scheme = "https" then .ok (withoutSlashes value)
    else .error (.urlScheme u.scheme)

/-- The name of a user, without the blanks around it. -/
def subject (value : String) : Except ValueFault String :=
  let cs := Text.trim value.toList
  if cs.isEmpty then .error .subjectEmpty
  else if cs.any Text.isBlank then .error (.subjectBlank value)
  else .ok (String.ofList cs)

/-! ## Files -/

/-- A file that is there. -/
def configFile (look : String → Sighting) (value : String) : Except ValueFault String :=
  match look value with
  | .missing => .error (.fileMissing value)
  | .directory => .error (.fileDirectory value)
  | .file _ => .ok value

/-! ## Words -/

def role (value : String) : Except ValueFault Role := (Role.parse value).mapError .unknown

def tier (value : String) : Except ValueFault Tier := (Tier.parse value).mapError .unknown

def employeeRole (value : String) : Except ValueFault EmployeeRole :=
  (EmployeeRole.parse value).mapError .unknown

inductive LogLevel
  | error | warn | info | debug | trace
  deriving DecidableEq, Repr

def LogLevel.name : LogLevel → String
  | error => "error"
  | warn => "warn"
  | info => "info"
  | debug => "debug"
  | trace => "trace"

def logLevel (value : String) : Except ValueFault LogLevel :=
  match value with
  | "error" => .ok .error
  | "warn" | "warning" => .ok .warn
  | "info" => .ok .info
  | "debug" => .ok .debug
  | "trace" => .ok .trace
  | _ => .error (.word value)

/-- One of the environments that can be asked for on the command line. -/
def environment (value : String) : Except ValueFault Environment :=
  match value with
  | "development" | "dev" => .ok .development
  | "production" | "prod" => .ok .production
  | "test" => .ok .test
  | _ => .error (.word value)

end Cadence.CommandLine
