import Cadence.Proofs.Job.Errand

/-!
# The calls behind a report

Whoever else is at work on the store, the report of a poll tells what its own calls were answered:
each result goes with the calls for its job.
-/

namespace Cadence

open StoreScript

/-- The call to write down a failure, as the id and whether it succeeded. -/
def Exchange.failure? : Exchange → Option (Int × Bool)
  | ⟨.recordFailure i _, some (.ok _)⟩ => some (i, true)
  | ⟨.recordFailure i _, some (.error _)⟩ => some (i, false)
  | _ => none

namespace Poll

variable {now : Instant} {j : Job} {jobs : List Job} {xs : List Exchange} {o : JobOutcome}
  {os : List JobOutcome}

/-! ## One job -/

/-- The calls for a job, and the result they lead to. -/
inductive Served (now : Instant) (j : Job) : List Exchange → JobOutcome → Prop
  | skipped (hdue : j.isDue now = false) :
      Served now j [] ⟨j.id, j.name, .skipped, j.nextExecution, none⟩
  | executed {next : Instant} (hdue : j.isDue now = true)
      (hnext : nextExecution j.scheduleExpression now = some next) :
      Served now j [⟨.recordExecution j.id ⟨now, next, executedResult now next⟩, some (.ok ())⟩]
        ⟨j.id, j.name, .executed, some next, none⟩
  | unscheduled {error : String} (hdue : j.isDue now = true)
      (hnext : nextExecution j.scheduleExpression now = none)
      (herror : error = (JobError.noUpcomingRun j.scheduleExpression).describe)
      (r : Except ServiceError Unit) :
      Served now j [⟨.recordFailure j.id (failedResult now error), some r⟩]
        ⟨j.id, j.name, .failed, none, some error⟩
  | refused {next : Instant} {e : ServiceError} {error : String} (hdue : j.isDue now = true)
      (hnext : nextExecution j.scheduleExpression now = some next)
      (herror : error = (JobError.store e).describe) (r : Except ServiceError Unit) :
      Served now j
        [⟨.recordExecution j.id ⟨now, next, executedResult now next⟩, some (.error e)⟩,
          ⟨.recordFailure j.id (failedResult now error), some r⟩]
        ⟨j.id, j.name, .failed, none, some error⟩

theorem leads_process (h : Leads (process j now) xs (done o)) : Served now j xs o := by
  cases hdue : j.isDue now with
  | false =>
    rw [process_of_not_due hdue, leads_done_iff] at h
    obtain ⟨rfl, rfl⟩ := h
    exact .skipped hdue
  | true =>
    cases hnext : nextExecution j.scheduleExpression now with
    | none =>
      rw [process_of_unscheduled hdue hnext, leads_call_iff] at h
      obtain ⟨r, ys, rfl, hend⟩ := h
      obtain ⟨rfl, rfl⟩ := leads_done_iff.mp hend
      exact .unscheduled hdue hnext rfl r
    | some next =>
      rw [process_of_scheduled hdue hnext, leads_call_iff] at h
      obtain ⟨r, ys, rfl, hreply⟩ := h
      cases r with
      | ok _ =>
        obtain ⟨rfl, rfl⟩ := leads_done_iff.mp hreply
        exact .executed hdue hnext
      | error e =>
        obtain ⟨r, zs, rfl, hend⟩ := leads_call_iff.mp hreply
        obtain ⟨rfl, rfl⟩ := leads_done_iff.mp hend
        exact .refused hdue hnext rfl r

namespace Served

theorem jobId_eq (h : Served now j xs o) : o.jobId = j.id := by
  cases h <;> rfl

theorem countP_fetches (h : Served now j xs o) : xs.countP (·.fetches) = 0 := by
  cases h <;> rfl

theorem countP_writesRun (h : Served now j xs o) (id : Int) :
    xs.countP (·.writesRun id) = [o].countP (·.tellsRun id) := by
  cases h with
  | skipped => simp [JobOutcome.tellsRun]
  | executed => simp [JobOutcome.tellsRun, Exchange.writesRun, List.countP_cons]
  | unscheduled => simp [JobOutcome.tellsRun, Exchange.writesRun]
  | refused => simp [JobOutcome.tellsRun, Exchange.writesRun]

theorem failures_eq (h : Served now j xs o) :
    (xs.filterMap Exchange.failure?).map (·.1) =
      ([o].filter (·.status = .failed)).map (·.jobId) := by
  cases h with
  | skipped => rfl
  | executed => rfl
  | unscheduled _ _ _ r => cases r <;> rfl
  | refused _ _ _ r => cases r <;> rfl

theorem countP_writesFailure (h : Served now j xs o) (id : Int) :
    xs.countP (·.writesFailure id) =
      (([o].filter (·.status = .failed)).zip (xs.filterMap Exchange.failure?)).countP
        fun (o, _, recorded) => o.jobId = id ∧ recorded := by
  cases h with
  | skipped => rfl
  | executed => rfl
  | unscheduled _ _ _ r =>
    cases r <;> simp [Exchange.writesFailure, Exchange.failure?, List.countP_cons]
  | refused _ _ _ r =>
    cases r <;>
      simp [Exchange.writesFailure, Exchange.failure?, List.countP_cons, List.filterMap_cons]

end Served

/-! ## All jobs of a batch -/

/-- The calls for the jobs of a batch, one after the other, and the results. -/
inductive ServedAll (now : Instant) : List Job → List Exchange → List JobOutcome → Prop
  | nil : ServedAll now [] [] []
  | cons {j : Job} {jobs : List Job} {xs ys : List Exchange} {o : JobOutcome}
      {os : List JobOutcome} (first : Served now j xs o) (rest : ServedAll now jobs ys os) :
      ServedAll now (j :: jobs) (xs ++ ys) (o :: os)

theorem leads_processAll (h : Leads (processAll now jobs) xs (done os)) :
    ServedAll now jobs xs os := by
  induction jobs generalizing xs os with
  | nil =>
    obtain ⟨rfl, rfl⟩ := leads_done_iff.mp h
    exact .nil
  | cons j rest ih =>
    rw [processAll_cons] at h
    obtain ⟨o, ys, zs, rfl, hfirst, hothers⟩ := leads_bind_iff.mp h
    obtain ⟨os', zs, ws, rfl, hrest, hend⟩ := leads_bind_iff.mp hothers
    obtain ⟨rfl, rfl⟩ := leads_done_iff.mp hend
    rw [List.append_nil]
    exact .cons (leads_process hfirst) (ih hrest)

/-- A poll that ended has failed to fetch its batch, or has served all of it. -/
theorem leads_poll {limit : Int} {durationMs : Nat} {r : Except ServiceError PollReport}
    (h : Leads (poll limit now durationMs) xs (done r)) :
    (∃ e, xs = [⟨.listActive limit, some (.error e)⟩] ∧ r = .error e) ∨
      ∃ (jobs : List Job) (ys : List Exchange) (os : List JobOutcome),
        xs = ⟨.listActive limit, some (.ok jobs)⟩ :: ys ∧ ServedAll now jobs ys os ∧
          r = .ok ⟨.ofOutcomes os, os, durationMs⟩ := by
  unfold poll at h
  simp only [bind_eq_bind, send_bind, pure_eq_done] at h
  obtain ⟨reply, ys, rfl, hreply⟩ := leads_call_iff.mp h
  cases reply with
  | error e =>
    obtain ⟨rfl, rfl⟩ := leads_done_iff.mp hreply
    exact Or.inl ⟨e, rfl, rfl⟩
  | ok jobs =>
    obtain ⟨os, ys, zs, rfl, hserved, hend⟩ := leads_bind_iff.mp hreply
    obtain ⟨rfl, rfl⟩ := leads_done_iff.mp hend
    rw [List.append_nil]
    exact Or.inr ⟨jobs, ys, os, rfl, leads_processAll hserved, rfl⟩

namespace ServedAll

theorem jobIds_eq (h : ServedAll now jobs xs os) : os.map (·.jobId) = jobs.map (·.id) := by
  induction h with
  | nil => rfl
  | cons first _ ih => rw [List.map_cons, List.map_cons, first.jobId_eq, ih]

theorem of_executed (h : ServedAll now jobs xs os) (ho : o ∈ os) (hstatus : o.status = .executed) :
    ∃ j ∈ jobs, ∃ next, j.id = o.jobId ∧ j.isDue now = true ∧ o.nextRun = some next ∧
      nextExecution j.scheduleExpression now = some next ∧
      ⟨.recordExecution o.jobId ⟨now, next, executedResult now next⟩, some (.ok ())⟩ ∈ xs := by
  induction h with
  | nil => cases ho
  | cons first _ ih =>
    rcases List.mem_cons.mp ho with rfl | ho
    · cases first with
      | executed hdue hnext =>
        exact ⟨_, List.mem_cons_self, _, rfl, hdue, rfl, hnext, List.mem_cons_self⟩
      | skipped => cases hstatus
      | unscheduled => cases hstatus
      | refused => cases hstatus
    · obtain ⟨j, hj, next, hid, hdue, htold, hnext, hmem⟩ := ih ho
      exact ⟨j, List.mem_cons_of_mem _ hj, next, hid, hdue, htold, hnext,
        List.mem_append_right _ hmem⟩

theorem countP_fetches (h : ServedAll now jobs xs os) : xs.countP (·.fetches) = 0 := by
  induction h with
  | nil => rfl
  | cons first _ ih => rw [List.countP_append, first.countP_fetches, ih]

theorem countP_writesRun (h : ServedAll now jobs xs os) (id : Int) :
    xs.countP (·.writesRun id) = os.countP (·.tellsRun id) := by
  induction h with
  | nil => rfl
  | cons first _ ih =>
    rw [List.countP_append, first.countP_writesRun, ih, ← List.countP_append, List.singleton_append]

theorem failures_eq (h : ServedAll now jobs xs os) :
    (xs.filterMap Exchange.failure?).map (·.1) =
      (os.filter (·.status = .failed)).map (·.jobId) := by
  induction h with
  | nil => rfl
  | cons first _ ih =>
    rw [List.filterMap_append, List.map_append, first.failures_eq, ih, ← List.map_append,
      ← List.filter_append, List.singleton_append]

theorem countP_writesFailure (h : ServedAll now jobs xs os) (id : Int) :
    xs.countP (·.writesFailure id) =
      ((os.filter (·.status = .failed)).zip (xs.filterMap Exchange.failure?)).countP
        fun (o, _, recorded) => o.jobId = id ∧ recorded := by
  induction h with
  | nil => rfl
  | @cons j jobs xs ys o os first _ ih =>
    have hlength : ([o].filter (·.status = .failed)).length =
        (xs.filterMap Exchange.failure?).length := by
      have := congrArg List.length first.failures_eq
      simpa using this.symm
    rw [List.countP_append, first.countP_writesFailure, ih, ← List.countP_append,
      ← List.zip_append hlength, ← List.filter_append, ← List.filterMap_append,
      List.singleton_append]

end ServedAll

end Poll

/-! ## Any errand -/

/-- The results that are told; work that breaks off tells none. -/
def Answer.results : Option Answer → List JobOutcome
  | some (.polled (.ok report)) => report.results
  | _ => []

/-- The failures that are told, each with the call to write it down. -/
def Answer.failures (a : Option Answer) (xs : List Exchange) : List (JobOutcome × Int × Bool) :=
  ((Answer.results a).filter (·.status = .failed)).zip (xs.filterMap Exchange.failure?)

/-- The calls of an errand are what its answer tells: the executions, and the failures in their
order, each of them written down or not. -/
structure Answer.Accounts (a : Option Answer) (xs : List Exchange) : Prop where
  executions : ∀ id, xs.countP (·.writesRun id) = (Answer.results a).countP (·.tellsRun id)
  failures_ids : (xs.filterMap Exchange.failure?).map (·.1) =
    ((Answer.results a).filter (·.status = .failed)).map (·.jobId)
  failures : ∀ id, xs.countP (·.writesFailure id) =
    (Answer.failures a xs).countP fun (o, _, recorded) => o.jobId = id ∧ recorded

namespace Errand

variable {xs : List Exchange}

theorem accounts_of_poll {now : Instant} {limit : Int} {durationMs : Nat}
    {r : Except ServiceError PollReport}
    (h : Leads (Cadence.poll limit now durationMs) xs (done r)) :
    Answer.Accounts (some (.polled r)) xs := by
  rcases Poll.leads_poll h with ⟨e, rfl, rfl⟩ | ⟨jobs, ys, os, rfl, hserved, rfl⟩
  · exact ⟨fun id => rfl, rfl, fun id => rfl⟩
  · refine ⟨fun id => ?_, ?_, fun id => ?_⟩
    · rw [List.countP_cons, hserved.countP_writesRun]
      rfl
    · exact hserved.failures_eq
    · rw [List.countP_cons, hserved.countP_writesFailure]
      rfl

theorem not_writesFailure_of_inserts {x : Exchange} (h : x.call.Inserts) (id : Int) :
    x.failure? = none ∧ x.writesFailure id = false := by
  obtain ⟨c, r⟩ := x
  cases c with
  | insertIfAbsent job => exact ⟨rfl, rfl⟩
  | _ => exact h.elim

theorem accounts_of_inserts {a : Option Answer} (ha : Answer.results a = [])
    (hinserts : ∀ x ∈ xs, x.call.Inserts) : Answer.Accounts a xs := by
  have hnone : xs.filterMap Exchange.failure? = [] :=
    List.filterMap_eq_nil_iff.mpr fun x hx => (not_writesFailure_of_inserts (hinserts x hx) 0).1
  refine ⟨fun id => ?_, ?_, fun id => ?_⟩
  · rw [ha]
    apply List.countP_eq_zero.mpr
    intro x hx
    rw [((hinserts x hx).not_recordExecution id).1]
    exact Bool.false_ne_true
  · rw [hnone, ha]
    rfl
  · unfold Answer.failures
    rw [ha]
    apply List.countP_eq_zero.mpr
    intro x hx
    rw [(not_writesFailure_of_inserts (hinserts x hx) id).2]
    exact Bool.false_ne_true

theorem seed_script_only (definitions : List JobDefinition) :
    (Errand.seed definitions).script.Only StoreCall.Inserts :=
  (seed_only definitions).bind fun _ => trivial

theorem accounts {e : Errand} {a : Answer} (h : Leads e.script xs (done a)) :
    Answer.Accounts (some a) xs := by
  cases e with
  | poll limit now durationMs =>
    obtain ⟨r, ys, zs, rfl, hpoll, hend⟩ := leads_bind_iff.mp h
    obtain ⟨rfl, rfl⟩ := leads_done_iff.mp hend
    rw [List.append_nil]
    exact accounts_of_poll hpoll
  | seed definitions =>
    have hinserts := (seed_script_only definitions).leads h
    obtain ⟨r, ys, zs, rfl, -, hend⟩ := leads_bind_iff.mp h
    obtain ⟨rfl, rfl⟩ := leads_done_iff.mp hend
    exact accounts_of_inserts rfl hinserts

theorem accounts_of_broken {e : Errand} (h : Leads e.script xs broken)
    (hroom : ∀ x ∈ xs, x.outcome = none → x.call.Inserts) :
    (∃ definitions, e = .seed definitions) ∧ Answer.Accounts none xs := by
  cases e with
  | poll limit now durationMs =>
    have honly : (Errand.poll limit now durationMs).script.Only (Poll.Calls now) :=
      (Poll.poll_only limit durationMs).bind fun _ => trivial
    obtain ⟨x, hx, hcalls, hnone⟩ := honly.exists_broken_call h
    exact absurd (hroom x hx hnone) hcalls.not_inserts
  | seed definitions =>
    exact ⟨⟨definitions, rfl⟩, accounts_of_inserts rfl ((seed_script_only definitions).leads h)⟩

end Errand

end Cadence
