import Cadence.Job.Seed
import Cadence.Schedule.Timer
import Cadence.Settings.Validate

/-!
# Starting the service

What happens before the service listens: the tokens are checked, the store is opened and seeded, and
the timer is started. The first step that fails ends the start.
-/

namespace Cadence

/-- Opens the store of a kind. The memory store is empty; no database is within reach. -/
def StoreKind.openStore : StoreKind → Except ServiceError JobStore
  | memory => .ok .empty
  | postgres => .error (.connectionPool ["no database is within reach"])

namespace Server

inductive StartError
  | tokens (e : ConfigError)
  | store (e : ServiceError)
  | timer (e : JobError)
  /-- the seeding broke off -/
  | brokenOff
  deriving DecidableEq, Repr

def StartError.message : StartError → String
  | tokens e => "JWT configuration validation failed: " ++ e.message
  | store e => e.message
  | timer e => e.message
  | brokenOff => ""

/-- The store with which the service begins to listen. -/
def start (s : Settings) (moments : Nat → Moment) : Except StartError JobStore := do
  s.jwt.validate.mapError .tokens
  let store ← s.cron.store.openStore.mapError .store
  let store ←
    if s.cron.seedOnStartup then
      match seedAll.run moments 0 store with
      | (some (.ok _), store) => pure store
      | (some (.error e), _) => throw (.store e)
      | (none, _) => throw .brokenOff
    else pure store
  if s.cron.trigger.enabled then (Schedule.Timer.start s.cron.trigger.schedule).mapError .timer
  return store

end Server

end Cadence
