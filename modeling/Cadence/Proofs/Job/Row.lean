import Cadence.Proofs.Job.Wire

/-!
# Rows that are read back

A row of the job table is read back from the JSON that tells of it, unless its last result is an
explicit null: on the wire that is the same as no result.
-/

namespace Cadence

namespace Job

/-- The numbers of a row have 32 bits. -/
def InRange (j : Job) : Prop :=
  ∀ n ∈ [j.id, j.executionCount, j.errorCount, j.maxRetries, j.timeoutSeconds],
    Text.i32Min ≤ n ∧ n ≤ Text.i32Max

/-- The members of a row. -/
def members (j : Job) : List (String × Json) :=
  [("id", .int j.id), ("name", .str j.name), ("function_name", .str j.functionName),
    ("schedule_expression", .str j.scheduleExpression), ("is_active", .bool j.isActive),
    ("next_execution", .optInstant j.nextExecution), ("last_executed", .optInstant j.lastExecuted),
    ("execution_count", .int j.executionCount), ("error_count", .int j.errorCount),
    ("max_retries", .int j.maxRetries), ("timeout_seconds", .int j.timeoutSeconds),
    ("last_result", .ofOption j.lastResult), ("description", .optStr j.description),
    ("created_at", .ofInstant j.createdAt), ("updated_at", .ofInstant j.updatedAt)]

open Json

theorem nodup_members (j : Job) : (j.members.map (·.1)).Nodup := by
  change ["id", "name", "function_name", "schedule_expression", "is_active", "next_execution",
    "last_executed", "execution_count", "error_count", "max_retries", "timeout_seconds",
    "last_result", "description", "created_at", "updated_at"].Nodup
  decide

theorem bind_eq_some {α β : Type} {a? : Option α} {f : α → Option β} {a : α} {b : β}
    (ha : a? = some a) (hf : f a = some b) : (a? >>= f) = some b := by
  rw [ha]
  exact hf

theorem required?_members {α : Type} {read : Json → Option α} {j : Job} {name : String} {v : Json}
    {a : α} (hmember : j.members.lookup name = some v) (hread : read v = some a) :
    required? read j.members name = some a := by
  rw [required?_of_lookup hmember, hread]

theorem ofJson?_toJson {j : Job} (h : j.InRange) (hresult : j.lastResult ≠ some .null) :
    ofJson? j.toJson = some j := by
  unfold InRange at h
  simp only [List.forall_mem_cons, List.not_mem_nil, false_implies, implies_true, and_true] at h
  obtain ⟨hid, hexecutions, herrors, hretries, htimeout⟩ := h
  have hid' : required? asI32? j.members "id" = some j.id :=
    required?_members rfl (asI32?_int hid)
  have hname : required? asStr? j.members "name" = some j.name := required?_members rfl rfl
  have hfunction : required? asStr? j.members "function_name" = some j.functionName :=
    required?_members rfl rfl
  have hschedule : required? asStr? j.members "schedule_expression" = some j.scheduleExpression :=
    required?_members rfl rfl
  have hactive : required? asBool? j.members "is_active" = some j.isActive :=
    required?_members rfl rfl
  have hnext : optional? asInstant? j.members "next_execution" = some j.nextExecution :=
    optional?_of_ofOption rfl (fun t _ => asInstant?_ofInstant t) fun _ _ h => by cases h
  have hlast : optional? asInstant? j.members "last_executed" = some j.lastExecuted :=
    optional?_of_ofOption rfl (fun t _ => asInstant?_ofInstant t) fun _ _ h => by cases h
  have hexecutions' : required? asI32? j.members "execution_count" = some j.executionCount :=
    required?_members rfl (asI32?_int hexecutions)
  have herrors' : required? asI32? j.members "error_count" = some j.errorCount :=
    required?_members rfl (asI32?_int herrors)
  have hretries' : required? asI32? j.members "max_retries" = some j.maxRetries :=
    required?_members rfl (asI32?_int hretries)
  have htimeout' : required? asI32? j.members "timeout_seconds" = some j.timeoutSeconds :=
    required?_members rfl (asI32?_int htimeout)
  have hresult' : optional? some j.members "last_result" = some j.lastResult := by
    have hlookup :
        j.members.lookup "last_result" = some (ofOption (j.lastResult.map fun v => v)) := by
      rw [Option.map_id']
      rfl
    exact optional?_of_ofOption hlookup (fun _ _ => rfl) fun v hv hnull => hresult (hnull ▸ hv)
  have hdescription : optional? asStr? j.members "description" = some j.description :=
    optional?_of_ofOption rfl (fun s _ => asStr?_str s) fun _ _ h => by cases h
  have hcreated : required? asInstant? j.members "created_at" = some j.createdAt :=
    required?_members rfl (asInstant?_ofInstant _)
  have hupdated : required? asInstant? j.members "updated_at" = some j.updatedAt :=
    required?_members rfl (asInstant?_ofInstant _)
  have hobj : j.toJson = .obj j.members := rfl
  unfold ofJson?
  rw [hobj, record?_obj _ j.nodup_members]
  rw [Option.bind_eq_bind, Option.bind_some]
  exact bind_eq_some hid' <| bind_eq_some hname <| bind_eq_some hfunction <|
    bind_eq_some hschedule <| bind_eq_some hactive <| bind_eq_some hnext <| bind_eq_some hlast <|
    bind_eq_some hexecutions' <| bind_eq_some herrors' <| bind_eq_some hretries' <|
    bind_eq_some htimeout' <| bind_eq_some hresult' <| bind_eq_some hdescription <|
    bind_eq_some hcreated <| bind_eq_some hupdated rfl

theorem fits {j : Job} (h : j.InRange) {depth : Nat}
    (hresult : ∀ v, j.lastResult = some v → v.Fits depth) : j.toJson.Fits (depth + 1) := by
  have hwide : Text.i64Min ≤ Text.i32Min ∧ Text.i32Max ≤ (Text.u64Max : Int) := by decide
  have hint {n : Int} (hn : Text.i32Min ≤ n ∧ n ≤ Text.i32Max) : (Json.int n).Fits depth := by
    unfold Fits
    omega
  have hoption {v? : Option Json} (hv : ∀ v, v? = some v → v.Fits depth) :
      (ofOption v?).Fits depth := by
    cases v? with
    | none => unfold Fits ofOption; trivial
    | some v => exact hv v rfl
  have htexts {α : Type} (a? : Option α) (text : α → String) :
      (ofOption (a?.map fun a => .str (text a))).Fits depth := by
    refine hoption fun v hv => ?_
    obtain ⟨a, -, rfl⟩ := Option.map_eq_some_iff.mp hv
    exact fits_str depth _
  unfold InRange at h
  simp only [List.forall_mem_cons, List.not_mem_nil, false_implies, implies_true, and_true] at h
  obtain ⟨hid, hexecutions, herrors, hretries, htimeout⟩ := h
  change (Json.obj j.members).Fits (depth + 1)
  unfold Fits members
  simp only [List.forall_mem_cons, List.not_mem_nil, false_implies, implies_true, and_true]
  exact ⟨hint hid, fits_str _ _, fits_str _ _, fits_str _ _, by unfold Fits; trivial,
    htexts _ Stamp.write, htexts _ Stamp.write, hint hexecutions, hint herrors, hint hretries,
    hint htimeout, hoption hresult, htexts j.description (fun s => s), fits_str _ _, fits_str _ _⟩

end Job

/-- A report of a poll is read back from the text of the answer that carries it. A row is read back
from its JSON, and from the text of it if its last result has no floats. -/
theorem wire_forms_read_back {report : PollReport} (hreport : (RunResponse.ofReport report).InRange)
    {j : Job} (hrow : j.InRange) (hresult : j.lastResult ≠ some .null) :
    (Json.read? (RunResponse.ofReport report).toJson.text).bind RunResponse.ofJson? =
        some ⟨true, report⟩ ∧
      Job.ofJson? j.toJson = some j ∧
      ((∀ v, j.lastResult = some v → v.Fits (Json.maxDepth - 1)) →
        (Json.read? j.toJson.text).bind Job.ofJson? = some j) := by
  have hjob := Job.ofJson?_toJson hrow hresult
  refine ⟨RunResponse.read_text hreport, hjob, fun hfits => ?_⟩
  rw [Json.read?_text (Job.fits hrow hfits), Option.bind_some, hjob]

theorem wire_forms_read_back_at_ends :
    let first : Instant := ⟨firstDay, 0, 0, by decide, by decide, by decide, by decide⟩
    let leap : Instant := ⟨lastDay, 86399, 1999999999, by decide, by decide, by decide, by decide⟩
    let report : PollReport := ⟨⟨Text.u64Max, 1, 0, Text.u64Max⟩,
      [⟨Text.i32Min, "\"quoted\"", .executed, some leap, none⟩,
        ⟨Text.i32Max, "", .failed, none, some "line\nline"⟩], Text.u64Max⟩
    let j : Job := { (default : Job) with
      id := Text.i32Min
      nextExecution := some leap
      lastResult := some (.obj [("executed_at", .null), ("runs", .arr [.int Text.u64Max])])
      createdAt := first
      updatedAt := leap }
    (RunResponse.ofReport report).InRange ∧ j.InRange ∧ j.lastResult ≠ some .null ∧
      (Json.read? (RunResponse.ofReport report).toJson.text).bind RunResponse.ofJson? =
        some ⟨true, report⟩ ∧
      Job.ofJson? j.toJson = some j ∧
      (Json.read? j.toJson.text).bind Job.ofJson? = some j := by
  intro first leap report j
  have hsummary : report.summary.InRange := by
    unfold PollSummary.InRange
    decide
  have hids : ∀ o ∈ report.results, Text.i32Min ≤ o.jobId ∧ o.jobId ≤ Text.i32Max := by decide
  have hreport : (RunResponse.ofReport report).InRange := ⟨hids, hsummary, Nat.le_refl _⟩
  have hrow : j.InRange := by
    unfold Job.InRange
    decide
  have hresult : j.lastResult ≠ some .null := by
    intro h
    cases h
  have hfits : ∀ v, j.lastResult = some v → v.Fits (Json.maxDepth - 1) := by
    rintro v ⟨⟩
    simp [Json.maxDepth, Json.Fits, Text.i64Min, Text.u64Max]
  obtain ⟨hrun, hjob, htext⟩ := wire_forms_read_back hreport hrow hresult
  exact ⟨hreport, hrow, hresult, hrun, hjob, htext hfits⟩

end Cadence
