import Cadence.CommandLine.Options

/-!
# Commands

What can be asked for on the command line: one of six commands with its options, and before it the
options that hold for all of them. Without a command the service is started.
-/

namespace Cadence.CommandLine

structure ServeOptions where
  host : Option String := none
  port : Option Nat := none
  logLevel : Option LogLevel := none
  dryRun : Bool := false
  deriving DecidableEq, Repr

structure MigrateOptions where
  dryRun : Bool := false
  rollback : Option Nat := none
  deriving DecidableEq, Repr

structure TriggerOptions where
  url : Option String := none
  accessToken : String := ""
  refreshToken : Option String := none
  deriving DecidableEq, Repr

inductive Command
  | serve (options : ServeOptions)
  | migrate (options : MigrateOptions)
  | poll
  | seed
  | token (principal : Principal)
  | trigger (options : TriggerOptions)
  deriving DecidableEq, Repr

/-! ## Options of the commands -/

def serveRules : List (OptionRule ServeOptions) := [
  .ofValue "host" host fun v o => { o with host := some v },
  { OptionRule.ofValue "port" port fun v (o : ServeOptions) => { o with port := some v } with
    letter? := some 'p' },
  .ofValue "log-level" logLevel fun v o => { o with logLevel := some v },
  { name := "dry-run", kind := .flag fun o => { o with dryRun := true } },
  .help]

def migrateRules : List (OptionRule MigrateOptions) := [
  { name := "dry-run", kind := .flag (fun o => { o with dryRun := true })
    conflicts := ["rollback"] },
  .ofValue "rollback" rollbackSteps fun v o => { o with rollback := some v },
  .help]

def tokenRules : List (OptionRule Principal) := [
  { OptionRule.ofValue "subject" subject fun v (p : Principal) => { p with userId := v } with
    required := true },
  .ofValue "role" role fun v p => { p with role := v },
  .ofValue "tenant" .ok fun v p => { p with tenantId := some v },
  .ofValue "tier" tier fun v p => { p with tier := some v },
  .ofValue "employee-role" employeeRole fun v p => { p with employeeRole := some v },
  .help]

variable [HostNames]

def triggerRules : List (OptionRule TriggerOptions) := [
  .ofValue "url" serviceUrl fun v o => { o with url := some v },
  { OptionRule.ofValue "access-token" .ok fun v (o : TriggerOptions) =>
      { o with accessToken := v } with
    standIn? := some "CRM_TRIGGER_ACCESS_TOKEN", required := true },
  { OptionRule.ofValue "refresh-token" .ok fun v (o : TriggerOptions) =>
      { o with refreshToken := some v } with
    standIn? := some "CRM_TRIGGER_REFRESH_TOKEN" },
  .help]

/-! ## Reading a command -/

namespace Command

def names : List String := ["serve", "migrate", "poll", "seed", "token", "trigger"]

/-- Reads the options of a command; it takes no other words. -/
def readOptions {α : Type} (rules : List (OptionRule α)) (start : α) (vars : Variables)
    (words : List String) : Except UsageError α := do
  match ← Reading.scan rules { result := start } words with
  | (r, .nothing) => r.finish rules vars
  | (_, .word w _) | (_, .behindStop w) => throw (.unknownArgument w)

/-- The command of a name, with the words behind it. -/
def read (vars : Variables) (name : String) (words : List String) : Except UsageError Command :=
  match name with
  | "serve" => (readOptions serveRules {} vars words).map serve
  | "migrate" => (readOptions migrateRules {} vars words).map migrate
  | "poll" => (readOptions [.help] () vars words).map fun _ => poll
  | "seed" => (readOptions [.help] () vars words).map fun _ => seed
  | "token" => (readOptions tokenRules ⟨"", .user, none, none, none⟩ vars words).map token
  | "trigger" => (readOptions triggerRules {} vars words).map trigger
  | _ => .error (.unknownCommand name)

/-- A description that is asked for by words: of one command, or of all. -/
def readHelp : List String → UsageError
  | [] => .help
  | name :: rest =>
    if name = "help" ∨ name ∈ names then
      match rest with
      | [] => .help
      | w :: _ => .unknownCommand w
    else .unknownCommand name

end Command

/-! ## The whole line -/

/-- What a command line asks for. -/
structure Invocation where
  command : Option Command := none
  /-- a single file of settings -/
  config : Option String := none
  environment : Option Environment := none
  verbose : Bool := false
  quiet : Bool := false
  deriving DecidableEq, Repr

namespace Invocation

def rules (look : String → Sighting) : List (OptionRule Invocation) := [
  { OptionRule.ofValue "config" (configFile look) fun v (i : Invocation) =>
      { i with config := some v } with letter? := some 'c' },
  { OptionRule.ofValue "env" CommandLine.environment fun v (i : Invocation) =>
      { i with environment := some v } with letter? := some 'e' },
  { name := "verbose", letter? := some 'v', kind := .flag fun i => { i with verbose := true } },
  { name := "quiet", letter? := some 'q', kind := .flag (fun i => { i with quiet := true })
    conflicts := ["verbose"] },
  .help,
  { name := "version", letter? := some 'V', kind := .version }]

/-- The command in what is left behind the first options. -/
def readCommand (vars : Variables) : Remainder → Except UsageError (Option Command)
  | .nothing => .ok none
  | .word "help" rest => .error (Command.readHelp rest)
  | .word name rest => (Command.read vars name rest).map some
  | .behindStop w =>
    if w = "help" ∨ w ∈ Command.names then .error (.unknownArgument w)
    else .error (.unknownCommand w)

/-- Reads a command line, in view of the files that there are and the variables of the environment.
What is wrong behind the command comes before what is wrong in front of it. -/
def read (look : String → Sighting) (vars : Variables) (words : List String) :
    Except UsageError Invocation := do
  let (r, rest) ← Reading.scan (rules look) { result := {} } words
  let command ← readCommand vars rest
  return { ← r.finish (rules look) vars with command := command }

/-- The environment that is asked for, on the command line or else by a variable. -/
def environmentIn (vars : Variables) (i : Invocation) : Environment :=
  i.environment.getD (.ofVariables vars)

end Invocation

end Cadence.CommandLine
