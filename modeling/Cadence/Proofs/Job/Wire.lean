import Cadence.Job.Poll
import Cadence.Proofs.Json.Decode
import Cadence.Proofs.Json.Text
import Cadence.Proofs.Time.Stamp

/-!
# Reports that are read back

The report of a poll is read back from the answer that carries it.
-/

namespace Cadence

theorem OutcomeStatus.ofName?_name (s : OutcomeStatus) : ofName? s.name = some s := by
  cases s <;> rfl

open Json

theorem Json.asStr?_str (s : String) : asStr? (.str s) = some s := rfl

theorem Json.asInstant?_ofInstant (t : Instant) : asInstant? (.ofInstant t) = some t := by
  unfold asInstant? ofInstant
  rw [asStr?_str, Option.bind_some, Stamp.read?_write]

/-! ## Outcomes -/

namespace JobOutcome

/-- The members of an outcome, those without a value included. -/
def members (o : JobOutcome) : List (String × Option Json) :=
  [("job_id", some (.int o.jobId)), ("job_name", some (.str o.jobName)),
    ("status", some (.str o.status.name)), ("next_run", o.nextRun.map .ofInstant),
    ("error", o.error.map .str)]

theorem nodup_members (o : JobOutcome) : (o.members.map (·.1)).Nodup := by
  change ["job_id", "job_name", "status", "next_run", "error"].Nodup
  decide

theorem ofJson?_toJson {o : JobOutcome} (h : Text.i32Min ≤ o.jobId ∧ o.jobId ≤ Text.i32Max) :
    ofJson? o.toJson = some o := by
  have hlookup := lookup_present o.nodup_members
  have hid : (present o.members).lookup "job_id" = some (.int o.jobId) := hlookup _
  have hname : (present o.members).lookup "job_name" = some (.str o.jobName) := hlookup _
  have hstatus : (present o.members).lookup "status" = some (.str o.status.name) := hlookup _
  have hnext : (present o.members).lookup "next_run" = o.nextRun.map .ofInstant := hlookup _
  have herror : (present o.members).lookup "error" = o.error.map .str := hlookup _
  have hobj : o.toJson = .obj (present o.members) := rfl
  unfold ofJson?
  rw [hobj, record?_obj _ (nodup_present o.nodup_members)]
  simp only [Option.bind_eq_bind, Option.bind_some, required?_of_lookup hid,
    required?_of_lookup hname, required?_of_lookup hstatus, asI32?_int h, asStr?, asChoice?,
    OutcomeStatus.ofName?_name,
    optional?_of_lookup hnext asInstant?_ofInstant (fun _ h => by cases h),
    optional?_of_lookup herror asStr?_str (fun _ h => by cases h), Option.pure_def]

theorem fits {o : JobOutcome} (h : Text.i32Min ≤ o.jobId ∧ o.jobId ≤ Text.i32Max) (depth : Nat) :
    o.toJson.Fits (depth + 1) := by
  change (Json.obj (present o.members)).Fits (depth + 1)
  refine fits_present fun m hm v hv => ?_
  simp only [members, List.mem_cons, List.not_mem_nil, or_false] at hm
  rcases hm with rfl | rfl | rfl | rfl | rfl
  · cases hv
    have hwide : Text.i64Min ≤ Text.i32Min ∧ Text.i32Max ≤ (Text.u64Max : Int) := by decide
    unfold Fits
    omega
  · cases hv
    exact fits_str _ _
  · cases hv
    exact fits_str _ _
  · obtain ⟨t, -, rfl⟩ := Option.map_eq_some_iff.mp hv
    exact fits_str _ _
  · obtain ⟨s, -, rfl⟩ := Option.map_eq_some_iff.mp hv
    exact fits_str _ _

end JobOutcome

/-! ## Answers -/

namespace PollSummary

/-- The counts have 64 bits. -/
def InRange (s : PollSummary) : Prop :=
  s.totalJobs ≤ Text.u64Max ∧ s.executed ≤ Text.u64Max ∧ s.skipped ≤ Text.u64Max ∧
    s.failed ≤ Text.u64Max

/-- The members of a summary. -/
def members (s : PollSummary) : List (String × Json) :=
  [("total_jobs", .ofNat s.totalJobs), ("executed", .ofNat s.executed),
    ("skipped", .ofNat s.skipped), ("failed", .ofNat s.failed)]

theorem ofJson?_toJson {s : PollSummary} (h : s.InRange) : ofJson? s.toJson = some s := by
  obtain ⟨htotal, hexecuted, hskipped, hfailed⟩ := h
  have htotal' : s.members.lookup "total_jobs" = some (.ofNat s.totalJobs) := rfl
  have hexecuted' : s.members.lookup "executed" = some (.ofNat s.executed) := rfl
  have hskipped' : s.members.lookup "skipped" = some (.ofNat s.skipped) := rfl
  have hfailed' : s.members.lookup "failed" = some (.ofNat s.failed) := rfl
  have hobj : s.toJson = .obj s.members := rfl
  have hnames : (s.members.map (·.1)).Nodup := by
    change ["total_jobs", "executed", "skipped", "failed"].Nodup
    decide
  unfold ofJson?
  rw [hobj, record?_obj _ hnames]
  simp only [Option.bind_eq_bind, Option.bind_some, required?_of_lookup htotal',
    required?_of_lookup hexecuted', required?_of_lookup hskipped', required?_of_lookup hfailed',
    asU64?_ofNat htotal, asU64?_ofNat hexecuted, asU64?_ofNat hskipped, asU64?_ofNat hfailed,
    Option.pure_def]

theorem fits {s : PollSummary} (h : s.InRange) (depth : Nat) : s.toJson.Fits (depth + 1) := by
  obtain ⟨htotal, hexecuted, hskipped, hfailed⟩ := h
  unfold toJson Fits
  simp only [List.forall_mem_cons, List.not_mem_nil, false_implies, implies_true, and_true]
  exact ⟨fits_ofNat htotal, fits_ofNat hexecuted, fits_ofNat hskipped, fits_ofNat hfailed⟩

end PollSummary

namespace RunResponse

/-- The numbers of an answer have their sizes. -/
structure InRange (r : RunResponse) : Prop where
  ids : ∀ o ∈ r.report.results, Text.i32Min ≤ o.jobId ∧ o.jobId ≤ Text.i32Max
  summary : r.report.summary.InRange
  duration : r.report.durationMs ≤ Text.u64Max

/-- The members of an answer. -/
def members (r : RunResponse) : List (String × Json) :=
  [("success", .bool r.success), ("summary", r.report.summary.toJson),
    ("results", .arr (r.report.results.map JobOutcome.toJson)),
    ("duration_ms", .ofNat r.report.durationMs)]

theorem ofJson?_toJson {r : RunResponse} (h : r.InRange) : ofJson? r.toJson = some r := by
  have hduration : r.members.lookup "duration_ms" = some (.ofNat r.report.durationMs) := rfl
  have hresults : r.members.lookup "results" =
      some (.arr (r.report.results.map JobOutcome.toJson)) := rfl
  have hsuccess : r.members.lookup "success" = some (.bool r.success) := rfl
  have hsummary : r.members.lookup "summary" = some r.report.summary.toJson := rfl
  have hobj : r.toJson = .obj r.members := rfl
  have hnames : (r.members.map (·.1)).Nodup := by
    change ["success", "summary", "results", "duration_ms"].Nodup
    decide
  unfold ofJson?
  rw [hobj, record?_obj _ hnames]
  simp only [Option.bind_eq_bind, Option.bind_some, required?_of_lookup hduration,
    required?_of_lookup hresults, required?_of_lookup hsuccess, required?_of_lookup hsummary,
    PollSummary.ofJson?_toJson h.summary, asU64?_ofNat h.duration, asBool?,
    asArray?_map fun o ho => JobOutcome.ofJson?_toJson (h.ids o ho), Option.pure_def]

theorem fits {r : RunResponse} (h : r.InRange) : r.toJson.Fits maxDepth := by
  unfold toJson maxDepth Fits
  simp only [List.forall_mem_cons, List.not_mem_nil, false_implies, implies_true, and_true]
  refine ⟨by unfold Fits; trivial, PollSummary.fits h.summary _, ?_, fits_ofNat h.duration⟩
  unfold Fits
  intro v hv
  obtain ⟨o, ho, rfl⟩ := List.mem_map.mp hv
  exact JobOutcome.fits (h.ids o ho) _

theorem read_text {r : RunResponse} (h : r.InRange) :
    (Json.read? r.toJson.text).bind ofJson? = some r := by
  rw [read?_text (fits h), Option.bind_some, ofJson?_toJson h]

end RunResponse

end Cadence
