import Cadence.Client.Fetch
import Cadence.CommandLine.Override
import Cadence.Job.Poll
import Cadence.Log.Config
import Cadence.Server.Start
import Cadence.Settings.Load
import Cadence.Token.Basic

/-!
# Running commands

From the command line to what is printed. The settings are loaded and merged with the options, the
logger's settings are looked at, and then the command does its work.
-/

namespace Cadence.CommandLine

/-- What a command prints. -/
inductive Output
  | lines (ls : List String)
  | document (v : Json)

/-- Why a run fails, by the step that fails. -/
inductive RunError
  | load (e : ConfigError)
  | merge (e : ConfigError)
  | logger (e : ConfigError)
  | service (e : ServiceError)
  | fetch (e : FetchError)
  deriving DecidableEq, Repr

/-- The outermost text of a failure. -/
def RunError.message : RunError → String
  | load _ => "Configuration error"
  | merge _ => "Configuration merge error"
  | logger e => e.message
  | service e => e.message
  | fetch e => e.message

/-- The end of a command: what it has printed, and the failure if it failed. -/
structure Outcome where
  output : Output := .lines []
  error? : Option RunError := none

/-- Where a run leads to. -/
inductive Course
  | finished (o : Outcome)
  /-- a number beyond the greatest one, or an expiry beyond the calendar, was wanted -/
  | brokenOff
  /-- the service is to be started -/
  | serving (s : Settings) (e : Environment)

/-- What lies around a command. -/
structure Circumstances (σ : Type) where
  look : String → Sighting
  vars : Variables
  now : Instant
  /-- the milliseconds that a poll takes -/
  elapsedMs : Nat
  network : Surroundings σ
  initial : σ

/-! ## The service -/

/-- How the service would be set up, line by line. -/
def summary (s : Settings) (e : Environment) : List String :=
  let store := match s.cron.store with
    | .postgres => "Postgres"
    | .memory => "Memory"
  ["Configuration is valid", "Environment: " ++ e.name,
    "Server would bind to: " ++ s.server.address, "Cron store: " ++ store,
    s!"Poll batch limit: {s.cron.batchLimit}",
    "In-process trigger: " ++
      (if s.cron.trigger.enabled then s.cron.trigger.schedule else "disabled")] ++
  (if s.cron.seedOnStartup then ["Built-in jobs are seeded on startup"] else []) ++
  (if e.isProduction then [] else ["API documentation is exposed at /swagger-ui"])

def dryRun (s : Settings) (e : Environment) : List String :=
  (summary s e).map ("✓ " ++ ·) ++
    ["Dry run completed successfully - configuration is ready for deployment"]

/-! ## Migrations -/

/-- Announces a migration and fails at the connection: no database is within reach. -/
def migrate (s : Settings) (o : MigrateOptions) : Outcome :=
  let attempt (line operation : String) : Outcome :=
    ⟨.lines [line], some (.service (.database operation ["Connection error"]))⟩
  match s.database.validate with
  | .error e => { error? := some (.service e.toError) }
  | .ok () =>
    if o.dryRun then
      attempt "Checking for pending migrations..." "establish connection for migration check"
    else match o.rollback with
      | some 0 => ⟨.lines ["Rolling back 0 migration(s)..."], some (.service (.validation
          "rollback_steps" "Number of rollback steps must be greater than 0"))⟩
      | some n =>
        attempt s!"Rolling back {n} migration(s)..." "establish connection for rollback"
      | none => attempt "Running database migrations..." "establish connection for migrations"

/-! ## Jobs and tokens -/

/-- Runs a script on the store of the settings and prints its result. -/
def printScript {α : Type} (s : Settings) (now : Instant)
    (script : StoreScript (Except ServiceError α)) (write : α → Json) : Course :=
  match s.cron.store.openStore with
  | .error e => .finished { error? := some (.service e) }
  | .ok store =>
    match (script.run (fun _ => ⟨now, fun _ => none⟩) 0 store).1 with
    | some (.error e) => .finished { error? := some (.service e) }
    | some (.ok a) => .finished { output := .document (write a) }
    | none => .brokenOff

/-- Prints a new pair of tokens for a principal. -/
def printTokens (s : TokenSettings) (now : Instant) (p : Principal) : Course :=
  match Token.issuePair? p s.secret s.accessExpiration s.refreshExpiration now with
  | some pair =>
    .finished { output := .document (Token.Response.bearer pair s.accessExpiration).toJson }
  | none => .brokenOff

/-! ## The remote trigger -/

variable [HostNames] [FilterRules]

def triggerLine (r : PollReport) : String :=
  s!"✓ Poll finished in {r.durationMs}ms: {r.summary.executed} executed, " ++
    s!"{r.summary.skipped} skipped, {r.summary.failed} failed of {r.summary.totalJobs} job(s)"

/-- Asks the service at the client's base URL to poll. The tokens are refreshed there if there is a
refresh token. -/
def trigger {σ : Type} (c : Circumstances σ) (s : ClientSettings) (o : TriggerOptions) :
    Except FetchError RunResponse := do
  let client ← BackoffClient.new s.baseUrl s.backoff (some o.accessToken)
  match o.refreshToken with
  | none => (Trigger.run c.network client c.initial).1
  | some token => do
    let refresher ← TokenRefresher.new client.baseUrl token
    (Trigger.run (TokenRefresher.surround c.network) client (refresher, c.initial)).1

/-! ## All commands -/

/-- Runs a command with settings that are in order for it. -/
def execute {σ : Type} (c : Circumstances σ) (s : Settings) (e : Environment) :
    Option Command → Course
  | none => .serving s e
  | some (.serve o) =>
    if o.dryRun then .finished { output := .lines (dryRun s e) } else .serving s e
  | some (.migrate o) => .finished (migrate s o)
  | some .poll =>
    printScript s c.now (poll s.cron.batchLimit c.now c.elapsedMs) fun report =>
      (RunResponse.ofReport report).toJson
  | some .seed => printScript s c.now seedAll SeedReport.toJson
  | some (.token p) => printTokens s.jwt c.now p
  | some (.trigger o) => .finished <| match trigger c s.client o with
    | .ok response => { output := .lines [triggerLine response.report] }
    | .error e => { error? := some (.fetch e) }

/-- The settings that an invocation runs with. -/
def settingsFor {σ : Type} (c : Circumstances σ) (i : Invocation) : Except RunError Settings := do
  let loader ← (Loader.ofVariables c.vars).mapError .load
  let loader := match i.config with
    | some path => { loader with file? := some path }
    | none => loader
  let loader := { loader with environment := i.environment.getD loader.environment }
  let s ← (loader.loadUnvalidated c.look c.vars).mapError .load
  let s ← (i.merge s).mapError .merge
  let _ ← s.logger.toConfig.mapError .logger
  return s

def run {σ : Type} (c : Circumstances σ) (i : Invocation) : Course :=
  match settingsFor c i with
  | .error e => .finished { error? := some e }
  | .ok s => execute c s (i.environmentIn c.vars) i.command

end Cadence.CommandLine
