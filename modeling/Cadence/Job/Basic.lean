import Cadence.Json.Decode
import Cadence.Service.Error

/-!
# Jobs

A job names a function to be run on a schedule, and keeps the books about its runs.
-/

namespace Cadence

/-- A row of the job table. Numbers are of 32 bits. -/
structure Job where
  id : Int
  name : String
  /-- the function that is run; no two jobs have the same -/
  functionName : String
  scheduleExpression : String
  isActive : Bool
  nextExecution : Option Instant
  lastExecuted : Option Instant
  executionCount : Int
  errorCount : Int
  maxRetries : Int
  timeoutSeconds : Int
  lastResult : Option Json
  description : Option String
  createdAt : Instant
  updatedAt : Instant
  deriving Repr, Inhabited

/-- What is given of a job that is to be put into the table. -/
structure NewJob where
  name : String
  functionName : String
  scheduleExpression : String
  isActive : Bool
  nextExecution : Option Instant
  maxRetries : Int
  timeoutSeconds : Int
  description : Option String
  deriving DecidableEq, Repr

/-- What is written down about a run. -/
structure ExecutionRecord where
  executedAt : Instant
  nextExecution : Instant
  lastResult : Json
  deriving Repr

/-- Why a job fails. -/
inductive JobError
  | noUpcomingRun (expression : String)
  | invalidSchedule (expression : String)
  | store (error : ServiceError)
  | scheduler (reason : String)
  deriving DecidableEq, Repr

namespace JobError

/-- The text of the error, without what lies beneath. -/
def message : JobError → String
  | noUpcomingRun expression => s!"Schedule '{expression}' has no upcoming run"
  | invalidSchedule expression => s!"Invalid schedule expression '{expression}'"
  | store error => error.message
  | scheduler reason => "Scheduler error: " ++ reason

/-- The text of the error and of all that lies beneath. -/
def describe : JobError → String
  | store error => error.describe
  | e => e.message

def toError : JobError → ServiceError
  | store error => error
  | invalidSchedule expression =>
    .validation "schedule_expression"
      s!"'{expression}' is neither a schedule keyword nor a cron expression"
  | e => .internal [e.message]

end JobError

namespace Job

/-- The job is to be run at `now`: its next run is not later, or it has none yet. -/
def isDue (j : Job) (now : Instant) : Bool :=
  match j.nextExecution with
  | some next => next ≤ now
  | none => true

/-- The row once a run and the next one have been put down, before the run is counted. -/
def withRun (j : Job) (record : ExecutionRecord) : Job :=
  { j with
    lastExecuted := some record.executedAt
    nextExecution := some record.nextExecution }

def withExecution (j : Job) (record : ExecutionRecord) (clock : Instant) : Job :=
  { j.withRun record with
    executionCount := j.executionCount + 1
    lastResult := some record.lastResult
    updatedAt := clock }

def withFailure (j : Job) (result : Json) (clock : Instant) : Job :=
  { j with
    errorCount := j.errorCount + 1
    lastResult := some result
    updatedAt := clock }

/-! ## Wire form -/

def fields : List Json.FieldSpec :=
  ["id", "name", "function_name", "schedule_expression", "is_active", "next_execution",
    "last_executed", "execution_count", "error_count", "max_retries", "timeout_seconds",
    "last_result", "description", "created_at", "updated_at"].map .required

def toJson (j : Job) : Json :=
  .obj
    [("id", .int j.id), ("name", .str j.name), ("function_name", .str j.functionName),
      ("schedule_expression", .str j.scheduleExpression), ("is_active", .bool j.isActive),
      ("next_execution", .optInstant j.nextExecution),
      ("last_executed", .optInstant j.lastExecuted),
      ("execution_count", .int j.executionCount), ("error_count", .int j.errorCount),
      ("max_retries", .int j.maxRetries), ("timeout_seconds", .int j.timeoutSeconds),
      ("last_result", .ofOption j.lastResult), ("description", .optStr j.description),
      ("created_at", .ofInstant j.createdAt), ("updated_at", .ofInstant j.updatedAt)]

open Json in
def ofJson? (v : Json) : Option Job := do
  let ms ← record? fields v
  return {
    id := ← required? asI32? ms "id"
    name := ← required? asStr? ms "name"
    functionName := ← required? asStr? ms "function_name"
    scheduleExpression := ← required? asStr? ms "schedule_expression"
    isActive := ← required? asBool? ms "is_active"
    nextExecution := ← optional? asInstant? ms "next_execution"
    lastExecuted := ← optional? asInstant? ms "last_executed"
    executionCount := ← required? asI32? ms "execution_count"
    errorCount := ← required? asI32? ms "error_count"
    maxRetries := ← required? asI32? ms "max_retries"
    timeoutSeconds := ← required? asI32? ms "timeout_seconds"
    lastResult := ← optional? some ms "last_result"
    description := ← optional? asStr? ms "description"
    createdAt := ← required? asInstant? ms "created_at"
    updatedAt := ← required? asInstant? ms "updated_at" }

end Job

end Cadence
