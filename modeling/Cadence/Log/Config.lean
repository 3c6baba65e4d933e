import Cadence.Log.Filter
import Cadence.Settings.Decode
import Cadence.Settings.Error

/-!
# Logger configuration

What the logger is set up with: the filter and the outputs. It is made from the logger's settings,
and has rules of its own.
-/

namespace Cadence

inductive LogFormat
  | full | compact | json
  deriving DecidableEq, Repr

/-- Why logging fails. -/
inductive LogError
  | io
  | config (reason : String)
  | install
  deriving DecidableEq, Repr

namespace LogError

def message : LogError → String
  | io => "IO error"
  | config reason => "Configuration error: " ++ reason
  | install => "Failed to install subscriber"

end LogError

namespace LogFormat

def name : LogFormat → String
  | full => "full"
  | compact => "compact"
  | json => "json"

def ofName? : String → Option LogFormat
  | "full" => some full
  | "compact" => some compact
  | "json" => some json
  | _ => none

/-- The format that a person writes, in any case. -/
def parse (s : String) : Except LogError LogFormat :=
  match ofName? (Text.lower s) with
  | some f => .ok f
  | none =>
    .error (.config s!"Invalid log format '{s}'. Valid formats are: full, compact, json")

end LogFormat

/-- The log file and how it is written. -/
structure LogFileConfig where
  enabled : Bool := false
  path : String := "logs/crm-cron.log"
  append : Bool := true
  format : LogFormat := .json
  rotation : Rotation := {}
  deriving DecidableEq, Repr

structure LoggerConfig where
  level : String := "info"
  console : ConsoleSettings := {}
  file : LogFileConfig := {}
  deriving DecidableEq, Repr

/-- A rule: where `broken`, the configuration is wrong for the reason given. -/
def LogError.rule (broken : Bool) (reason : String) : Except LogError Unit :=
  if broken then .error (.config reason) else .ok ()

def Rotation.validate (r : Rotation) : Except LogError Unit := do
  LogError.rule (r.enabled && r.maxSize = 0) "Rotation max_size must be greater than 0"
  LogError.rule (r.enabled && r.maxFiles = 0) "Rotation max_files must be greater than 0"

namespace LogFileConfig

def validate (c : LogFileConfig) : Except LogError Unit := do
  if c.enabled then
    LogError.rule c.path.isEmpty "File path cannot be empty when file output is enabled"
    c.rotation.validate

end LogFileConfig

variable [FilterRules]

namespace LoggerConfig

def validate (c : LoggerConfig) : Except LogError Unit := do
  match LogFilter.check c.level with
  | .ok () => pure ()
  | .error f => throw (.config s!"Invalid log level '{c.level}': {f.message}")
  c.file.validate
  LogError.rule (!c.console.enabled && !c.file.enabled)
    "At least one output (console or file) must be enabled"

end LoggerConfig

/-- The configuration that the logger's settings stand for. -/
def LoggerSettings.toConfig (s : LoggerSettings) : Except ConfigError LoggerConfig := do
  let format ← (LogFormat.parse s.file.format).mapError
    fun e => .validation "logger.file.format" e.message
  let config : LoggerConfig := {
    level := s.level
    console := s.console
    file := {
      enabled := s.file.enabled
      path := s.file.path
      append := s.file.append
      format := format
      rotation := s.file.rotation } }
  config.validate.mapError fun e => .validation "logger" e.message
  return config

/-! ## Wire form -/

namespace Rotation

open Json in
/-- A rotation all of whose fields are there. -/
def ofJson? (v : Json) : Option Rotation := do
  let ms ← record? (fields.map .required) v
  return {
    enabled := ← required? asBool? ms "enabled"
    maxSize := ← required? asU64? ms "max_size"
    maxFiles := ← required? asU64? ms "max_files"
    compress := ← required? asBool? ms "compress" }

end Rotation

namespace LoggerConfig

def toJson (c : LoggerConfig) : Json :=
  .obj [("level", .str c.level), ("console", c.console.toJson),
    ("file", .obj [("enabled", .bool c.file.enabled), ("path", .str c.file.path),
      ("append", .bool c.file.append), ("format", .str c.file.format.name),
      ("rotation", c.file.rotation.toJson)])]

open Json in
def ofJson? (v : Json) : Option LoggerConfig := do
  let ms ← record? (["level", "console", "file"].map .required) v
  let console ← record? (["enabled", "colored"].map .required) (← ms.lookup "console")
  let file ← record? (["enabled", "path", "append", "format", "rotation"].map .required)
    (← ms.lookup "file")
  return {
    level := ← required? asStr? ms "level"
    console := {
      enabled := ← required? asBool? console "enabled"
      colored := ← required? asBool? console "colored" }
    file := {
      enabled := ← required? asBool? file "enabled"
      path := ← required? asStr? file "path"
      append := ← required? asBool? file "append"
      format := ← required? (fun v => (asChoice? v).bind LogFormat.ofName?) file "format"
      rotation := ← required? Rotation.ofJson? file "rotation" } }

end LoggerConfig

end Cadence
