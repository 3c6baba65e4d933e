import Cadence.CommandLine.Command
import Cadence.Settings.Validate

/-!
# Overrides

What the command line changes in the settings, and which sections have to be in order for a command.
A command needs only the sections that it uses.
-/

namespace Cadence.CommandLine

namespace Command

/-- Puts the options of a command into the settings. -/
def override (s : Settings) : Command → Settings
  | serve o => { s with
      server := { s.server with
        host := o.host.getD s.server.host
        port := o.port.getD s.server.port }
      logger := { s.logger with level := (o.logLevel.map LogLevel.name).getD s.logger.level } }
  | trigger o => { s with
      client := { s.client with baseUrl := o.url.getD s.client.baseUrl } }
  | _ => s

/-- Checks the sections that a command uses; without a command they are those of the service.
Migrations need a database wherever the jobs are kept. -/
def validate (s : Settings) : Option Command → Validation
  | none | some (serve _) => do
    s.validate
    s.jwt.validate
  | some (migrate _) => do
    s.validate
    if s.cron.store ≠ .postgres then s.database.validate
  | some poll | some seed => s.validate
  | some (token _) => do
    s.logger.validate
    s.jwt.validate
  | some (trigger _) => do
    s.logger.validate
    s.client.validate

end Command

namespace Invocation

/-- The settings as the command line wants them. The level that a command names wins over that of
the general options. -/
def override (i : Invocation) (s : Settings) : Settings :=
  let level :=
    if i.verbose then LogLevel.debug.name else if i.quiet then LogLevel.error.name
    else s.logger.level
  let s := { s with logger := { s.logger with level := level } }
  match i.command with
  | some c => c.override s
  | none => s

/-- The settings as the command line wants them, if they are in order for the command. -/
def merge (i : Invocation) (s : Settings) : Except ConfigError Settings := do
  let s := i.override s
  Command.validate s i.command
  return s

end Invocation

end Cadence.CommandLine
