import Cadence.Job.Store
import Cadence.Schedule.Kind

/-!
# Polling

One pass over the active jobs at an instant: a job that is due gets its next run, and the books are
kept in the store; the others are skipped. What goes wrong with one job is written down with it and
does not stop the pass.
-/

namespace Cadence

inductive OutcomeStatus
  | executed | skipped | failed
  deriving DecidableEq, Repr

namespace OutcomeStatus

def name : OutcomeStatus → String
  | executed => "executed"
  | skipped => "skipped"
  | failed => "failed"

def ofName? : String → Option OutcomeStatus
  | "executed" => some executed
  | "skipped" => some skipped
  | "failed" => some failed
  | _ => none

end OutcomeStatus

/-- What became of one job of a poll. -/
structure JobOutcome where
  jobId : Int
  jobName : String
  status : OutcomeStatus
  nextRun : Option Instant
  error : Option String
  deriving DecidableEq, Repr

structure PollSummary where
  totalJobs : Nat
  executed : Nat
  skipped : Nat
  failed : Nat
  deriving DecidableEq, Repr

structure PollReport where
  summary : PollSummary
  results : List JobOutcome
  durationMs : Nat
  deriving DecidableEq, Repr

namespace PollSummary

/-- The counts of each status. -/
def ofOutcomes (results : List JobOutcome) : PollSummary :=
  let count (s : OutcomeStatus) := (results.filter (·.status == s)).length
  ⟨results.length, count .executed, count .skipped, count .failed⟩

end PollSummary

namespace Poll

def executedResult (now next : Instant) : Json :=
  .obj [("executed_at", .ofInstant now), ("next_run", .ofInstant next), ("status", .str "executed")]

def failedResult (now : Instant) (error : String) : Json :=
  .obj [("error", .str error), ("failed_at", .ofInstant now), ("status", .str "failed")]

/-- Runs a job that is due: its next run goes to the store. -/
def execute (job : Job) (now : Instant) : StoreScript (Except JobError Instant) :=
  match nextExecution job.scheduleExpression now with
  | none => return .error (.noUpcomingRun job.scheduleExpression)
  | some next => do
    let r ← .send (.recordExecution job.id ⟨now, next, executedResult now next⟩)
    match r with
    | .ok _ => return .ok next
    | .error e => return .error (.store e)

/-- Deals with one job of the batch; an error in writing a failure down is passed over. -/
def process (job : Job) (now : Instant) : StoreScript JobOutcome :=
  if job.isDue now then do
    match ← execute job now with
    | .ok next => return ⟨job.id, job.name, .executed, some next, none⟩
    | .error e =>
      let _ ← .send (.recordFailure job.id (failedResult now e.describe))
      return ⟨job.id, job.name, .failed, none, some e.describe⟩
  else return ⟨job.id, job.name, .skipped, job.nextExecution, none⟩

def processAll (now : Instant) : List Job → StoreScript (List JobOutcome)
  | [] => return []
  | job :: rest => do
    let outcome ← process job now
    return outcome :: (← processAll now rest)

end Poll

/-- One poll at `now` of at most `limit` jobs that takes `durationMs`. Only a failure to fetch the
jobs is an error. -/
def poll (limit : Int) (now : Instant) (durationMs : Nat) :
    StoreScript (Except ServiceError PollReport) := do
  match ← .send (.listActive limit) with
  | .error e => return .error e
  | .ok jobs =>
    let results ← Poll.processAll now jobs
    return .ok ⟨.ofOutcomes results, results, durationMs⟩

/-! ## Wire form -/

namespace JobOutcome

def toJson (o : JobOutcome) : Json :=
  .obj (Json.present
    [("job_id", some (.int o.jobId)), ("job_name", some (.str o.jobName)),
      ("status", some (.str o.status.name)), ("next_run", o.nextRun.map .ofInstant),
      ("error", o.error.map .str)])

open Json in
def ofJson? (v : Json) : Option JobOutcome := do
  let ms ← record?
    [.required "job_id", .required "job_name", .required "status", .defaulted "next_run",
      .defaulted "error"] v
  return {
    jobId := ← required? asI32? ms "job_id"
    jobName := ← required? asStr? ms "job_name"
    status := ← required? (fun v => (asChoice? v).bind OutcomeStatus.ofName?) ms "status"
    nextRun := ← optional? asInstant? ms "next_run"
    error := ← optional? asStr? ms "error" }

end JobOutcome

namespace PollSummary

def toJson (s : PollSummary) : Json :=
  .obj [("total_jobs", .ofNat s.totalJobs), ("executed", .ofNat s.executed),
    ("skipped", .ofNat s.skipped), ("failed", .ofNat s.failed)]

open Json in
def ofJson? (v : Json) : Option PollSummary := do
  let ms ← record? (["total_jobs", "executed", "skipped", "failed"].map .required) v
  return {
    totalJobs := ← required? asU64? ms "total_jobs"
    executed := ← required? asU64? ms "executed"
    skipped := ← required? asU64? ms "skipped"
    failed := ← required? asU64? ms "failed" }

end PollSummary

/-- The answer to a poll request. -/
structure RunResponse where
  success : Bool
  report : PollReport
  deriving DecidableEq, Repr

namespace RunResponse

def ofReport (r : PollReport) : RunResponse := ⟨true, r⟩

def toJson (r : RunResponse) : Json :=
  .obj [("success", .bool r.success), ("summary", r.report.summary.toJson),
    ("results", .arr (r.report.results.map JobOutcome.toJson)),
    ("duration_ms", .ofNat r.report.durationMs)]

open Json in
def ofJson? (v : Json) : Option RunResponse := do
  let ms ← record? (["success", "summary", "results", "duration_ms"].map .required) v
  return {
    success := ← required? asBool? ms "success"
    report := {
      summary := ← required? PollSummary.ofJson? ms "summary"
      results := ← required? (asArray? JobOutcome.ofJson?) ms "results"
      durationMs := ← required? asU64? ms "duration_ms" } }

end RunResponse

end Cadence
