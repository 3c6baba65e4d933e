import Cadence.Job.Store

/-!
# Seeding

The jobs that every installation has, and the routine that puts in those that are missing. Rows that
exist are left as they are.
-/

namespace Cadence

/-- A job that is known beforehand. -/
structure JobDefinition where
  name : String
  functionName : String
  scheduleExpression : String
  maxRetries : Int
  timeoutSeconds : Int
  description : String
  deriving DecidableEq, Repr

namespace JobDefinition

/-- The row of a definition; it has no next run, so that the first poll runs it. -/
def toNewJob (d : JobDefinition) : NewJob where
  name := d.name
  functionName := d.functionName
  scheduleExpression := d.scheduleExpression
  isActive := true
  nextExecution := none
  maxRetries := d.maxRetries
  timeoutSeconds := d.timeoutSeconds
  description := some d.description

def toJson (d : JobDefinition) : Json :=
  .obj [("name", .str d.name), ("function_name", .str d.functionName),
    ("schedule_expression", .str d.scheduleExpression), ("max_retries", .int d.maxRetries),
    ("timeout_seconds", .int d.timeoutSeconds), ("description", .str d.description)]

/-- The jobs of daily work. -/
def initial : List JobDefinition :=
  [⟨"Process activity reminders", "processActivityReminders", "every_5_minutes", 3, 120,
      "Send due reminders for calls, meetings and tasks"⟩,
    ⟨"Sync email inbox", "syncEmailInbox", "every_15_minutes", 3, 300,
      "Pull new messages and link them to contacts and leads"⟩,
    ⟨"Refresh dashboard stats", "refreshDashboardStats", "every_hour", 2, 300,
      "Recompute cached per-tenant dashboard aggregates"⟩,
    ⟨"Send daily digest", "sendDailyDigest", "daily", 1, 600,
      "Email each user a summary of yesterday's pipeline activity"⟩]

/-- The jobs that look after the data. -/
def maintenance : List JobDefinition :=
  [⟨"Archive stale leads", "archiveStaleLeads", "daily", 2, 900,
      "Archive leads with no activity in the retention window"⟩,
    ⟨"Purge expired sessions", "purgeExpiredSessions", "every_hour", 3, 120,
      "Delete expired refresh sessions and one-time tokens"⟩,
    ⟨"Recalculate activity counts", "recalculateActivityCounts", "30 2 * * *", 2, 1800,
      "Rebuild denormalized activity counters on accounts and contacts"⟩,
    ⟨"Clean up orphaned records", "cleanupOrphanedRecords", "0 3 * * Sun", 1, 3600,
      "Remove notes and attachments whose parent record was deleted"⟩]

end JobDefinition

/-- The functions whose jobs a seeding put in, and those that had one. -/
structure SeedReport where
  created : List String
  existing : List String
  deriving DecidableEq, Repr

namespace SeedReport

def empty : SeedReport := ⟨[], []⟩

def append (r s : SeedReport) : SeedReport := ⟨r.created ++ s.created, r.existing ++ s.existing⟩

def toJson (r : SeedReport) : Json :=
  .obj [("created", .ofStrings r.created), ("existing", .ofStrings r.existing)]

end SeedReport

/-- Puts in the jobs of definitions, one after the other; the first error ends it. -/
def seed : List JobDefinition → StoreScript (Except ServiceError SeedReport)
  | [] => return .ok .empty
  | d :: rest => do
    match ← .send (.insertIfAbsent d.toNewJob) with
    | .error e => return .error e
    | .ok (isNew : Bool) =>
      let first : SeedReport :=
        if isNew then ⟨[d.functionName], []⟩ else ⟨[], [d.functionName]⟩
      return (← seed rest).map first.append

/-- Puts in all known jobs. -/
def seedAll : StoreScript (Except ServiceError SeedReport) := do
  match ← seed JobDefinition.initial with
  | .error e => return .error e
  | .ok first => return (← seed JobDefinition.maintenance).map first.append

end Cadence
