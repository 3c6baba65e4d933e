import Cadence.Job.Poll
import Cadence.Proofs.Job.Script

/-!
# What a poll makes of each row

A poll looks at a batch of rows as they were when it fetched them, and writes to the store while it
goes through them. Ids being distinct, each row of the batch takes its `Turn`: its outcome and what
it is afterwards depend on the row, the instant and the fate of its own calls alone.
-/

namespace Cadence

/-- The result says that the job was executed. -/
def JobOutcome.tellsRun (id : Int) (o : JobOutcome) : Bool := o.jobId = id ∧ o.status = .executed

namespace Poll

variable {moments : Nat → Moment} {now : Instant}

/-- A due job cannot be run: there is no next run, or the run is not written down. The run is to be
written down by the call number `k`; the number after the calls made follows the error. -/
inductive Fails (moments : Nat → Moment) (now : Instant) (j : Job) (k : Nat) : JobError → Nat → Prop
  | unscheduled (hnext : nextExecution j.scheduleExpression now = none) :
      Fails moments now j k (.noUpcomingRun j.scheduleExpression) k
  | refused {next : Instant} {e : ServiceError}
      (hnext : nextExecution j.scheduleExpression now = some next)
      (hfault : (moments k).fault?
        (.recordExecution j.id ⟨now, next, executedResult now next⟩) = some e) :
      Fails moments now j k (.store e) (k + 1)

/-- The turn of a row: from the number of its first call, its outcome, the row afterwards and the
number of the next call. -/
inductive Turn (moments : Nat → Moment) (now : Instant) (j : Job) :
    Nat → JobOutcome → Job → Nat → Prop
  | skipped {k : Nat} {next : Instant} (hnext : j.nextExecution = some next) (hlater : now < next) :
      Turn moments now j k ⟨j.id, j.name, .skipped, some next, none⟩ j k
  | executed {k : Nat} {next : Instant} (hdue : j.isDue now = true)
      (hnext : nextExecution j.scheduleExpression now = some next)
      (hok : (moments k).fault?
        (.recordExecution j.id ⟨now, next, executedResult now next⟩) = none) :
      Turn moments now j k ⟨j.id, j.name, .executed, some next, none⟩
        { j with
          lastExecuted := some now
          nextExecution := some next
          executionCount := j.executionCount + 1
          lastResult := some (executedResult now next)
          updatedAt := (moments k).clock }
        (k + 1)
  | failed {k k' : Nat} {error : JobError} (hdue : j.isDue now = true)
      (hfails : Fails moments now j k error k')
      (hok : (moments k').fault? (.recordFailure j.id (failedResult now error.describe)) = none) :
      Turn moments now j k ⟨j.id, j.name, .failed, none, some error.describe⟩
        { j with
          errorCount := j.errorCount + 1
          lastResult := some (failedResult now error.describe)
          updatedAt := (moments k').clock }
        (k' + 1)
  | unrecorded {k k' : Nat} {error : JobError} {e : ServiceError} (hdue : j.isDue now = true)
      (hfails : Fails moments now j k error k')
      (hfault : (moments k').fault?
        (.recordFailure j.id (failedResult now error.describe)) = some e) :
      Turn moments now j k ⟨j.id, j.name, .failed, none, some error.describe⟩ j (k' + 1)

/-- The rows of a batch take their turns one after the other. -/
inductive Turns (moments : Nat → Moment) (now : Instant) :
    Nat → List Job → List JobOutcome → List Job → Nat → Prop
  | nil (k : Nat) : Turns moments now k [] [] [] k
  | cons {k k' k'' : Nat} {j row : Job} {o : JobOutcome} {jobs rows : List Job}
      {os : List JobOutcome} (turn : Turn moments now j k o row k')
      (rest : Turns moments now k' jobs os rows k'') :
      Turns moments now k (j :: jobs) (o :: os) (row :: rows) k''

/-- The turn of a row breaks off at a full counter, and leaves the row so: a run has been put down
by then, a failure has not. -/
inductive Breaks (moments : Nat → Moment) (now : Instant) (j : Job) (k : Nat) : Job → Prop
  | run {next : Instant} (hdue : j.isDue now = true)
      (hnext : nextExecution j.scheduleExpression now = some next)
      (hfull : ¬ j.executionCount < Text.i32Max) :
      Breaks moments now j k { j with lastExecuted := some now, nextExecution := some next }
  | failure {k' : Nat} {error : JobError} (hdue : j.isDue now = true)
      (hfails : Fails moments now j k error k') (hfull : ¬ j.errorCount < Text.i32Max) :
      Breaks moments now j k j

/-- The rows of a batch take their turns until one of them breaks off. -/
inductive BrokenTurns (moments : Nat → Moment) (now : Instant) : Nat → List Job → List Job → Prop
  | here {k : Nat} {j row : Job} {jobs : List Job} (breaks : Breaks moments now j k row) :
      BrokenTurns moments now k (j :: jobs) [row]
  | later {k k' : Nat} {j row : Job} {o : JobOutcome} {jobs rows : List Job}
      (turn : Turn moments now j k o row k') (rest : BrokenTurns moments now k' jobs rows) :
      BrokenTurns moments now k (j :: jobs) (row :: rows)

/-! ## Facts of turns -/

namespace Turn

variable {j row : Job} {k k' : Nat} {o : JobOutcome}

theorem jobId_eq (h : Turn moments now j k o row k') : o.jobId = j.id := by
  cases h <;> rfl

theorem id_eq (h : Turn moments now j k o row k') : row.id = j.id := by
  cases h <;> rfl

theorem of_executed (h : Turn moments now j k o row k') (ho : o.status = .executed) :
    j.isDue now = true ∧ ∃ next, o.nextRun = some next ∧
      nextExecution j.scheduleExpression now = some next ∧
      row.lastExecuted = some now ∧ row.nextExecution = some next := by
  cases h with
  | skipped => cases ho
  | executed hdue hnext => exact ⟨hdue, _, rfl, hnext, rfl, rfl⟩
  | failed => cases ho
  | unrecorded => cases ho

theorem of_not_executed (h : Turn moments now j k o row k') (ho : o.status ≠ .executed) :
    row.lastExecuted = j.lastExecuted ∧ row.nextExecution = j.nextExecution := by
  cases h with
  | executed => exact absurd rfl ho
  | skipped => exact ⟨rfl, rfl⟩
  | failed => exact ⟨rfl, rfl⟩
  | unrecorded => exact ⟨rfl, rfl⟩

end Turn

namespace Turns

variable {jobs rows : List Job} {k k' : Nat} {os : List JobOutcome}

theorem jobIds_eq (h : Turns moments now k jobs os rows k') :
    os.map (·.jobId) = jobs.map (·.id) := by
  induction h with
  | nil => rfl
  | cons turn _ ih => rw [List.map_cons, List.map_cons, turn.jobId_eq, ih]

theorem ids_eq (h : Turns moments now k jobs os rows k') :
    rows.map (·.id) = jobs.map (·.id) := by
  induction h with
  | nil => rfl
  | cons turn _ ih => rw [List.map_cons, List.map_cons, turn.id_eq, ih]

theorem turn_of_mem (h : Turns moments now k jobs os rows k') {o : JobOutcome} (ho : o ∈ os) :
    ∃ j ∈ jobs, ∃ row ∈ rows, ∃ m m', Turn moments now j m o row m' := by
  induction h with
  | nil => cases ho
  | cons turn _ ih =>
    rcases List.mem_cons.mp ho with rfl | ho
    · exact ⟨_, List.mem_cons_self, _, List.mem_cons_self, _, _, turn⟩
    · obtain ⟨j, hj, row, hrow, m, m', hturn⟩ := ih ho
      exact ⟨j, List.mem_cons_of_mem _ hj, row, List.mem_cons_of_mem _ hrow, m, m', hturn⟩

theorem turn_of_mem_rows (h : Turns moments now k jobs os rows k') {row : Job}
    (hrow : row ∈ rows) :
    ∃ j ∈ jobs, ∃ o ∈ os, ∃ m m', Turn moments now j m o row m' := by
  induction h with
  | nil => cases hrow
  | cons turn _ ih =>
    rcases List.mem_cons.mp hrow with rfl | hrow
    · exact ⟨_, List.mem_cons_self, _, List.mem_cons_self, _, _, turn⟩
    · obtain ⟨j, hj, o, ho, m, m', hturn⟩ := ih hrow
      exact ⟨j, List.mem_cons_of_mem _ hj, o, List.mem_cons_of_mem _ ho, m, m', hturn⟩

end Turns

theorem Breaks.id_eq {j row : Job} {k : Nat} (h : Breaks moments now j k row) :
    row.id = j.id := by
  cases h <;> rfl

namespace BrokenTurns

variable {jobs rows : List Job} {k : Nat}

theorem ids_sublist (h : BrokenTurns moments now k jobs rows) :
    (rows.map (·.id)).Sublist (jobs.map (·.id)) := by
  induction h with
  | here breaks =>
    rw [List.map_singleton, List.map_cons, breaks.id_eq]
    exact List.singleton_sublist.mpr List.mem_cons_self
  | later turn _ ih =>
    rw [List.map_cons, List.map_cons, turn.id_eq]
    exact ih.cons_cons _

theorem exists_full (h : BrokenTurns moments now k jobs rows) :
    ∃ j ∈ jobs, ¬ (j.executionCount < Text.i32Max ∧ j.errorCount < Text.i32Max) := by
  induction h with
  | here breaks =>
    refine ⟨_, List.mem_cons_self, ?_⟩
    cases breaks with
    | run _ _ hfull => exact fun hroom => hfull hroom.1
    | failure _ _ hfull => exact fun hroom => hfull hroom.2
  | later _ _ ih =>
    obtain ⟨j, hj, hfull⟩ := ih
    exact ⟨j, List.mem_cons_of_mem _ hj, hfull⟩

end BrokenTurns

/-! ## The calls for one job -/

open StoreScript

theorem process_of_not_due {j : Job} (hdue : j.isDue now = false) :
    process j now = done ⟨j.id, j.name, .skipped, j.nextExecution, none⟩ := by
  unfold process
  simp [hdue]

theorem process_of_unscheduled {j : Job} (hdue : j.isDue now = true)
    (hnext : nextExecution j.scheduleExpression now = none) :
    process j now =
      let error := JobError.noUpcomingRun j.scheduleExpression
      call (.recordFailure j.id (failedResult now error.describe)) fun _ =>
        done ⟨j.id, j.name, .failed, none, some error.describe⟩ := by
  unfold process execute
  simp [hdue, hnext]

theorem process_of_scheduled {j : Job} {next : Instant} (hdue : j.isDue now = true)
    (hnext : nextExecution j.scheduleExpression now = some next) :
    process j now =
      call (.recordExecution j.id ⟨now, next, executedResult now next⟩) fun
        | .ok _ => done ⟨j.id, j.name, .executed, some next, none⟩
        | .error e =>
          let error := JobError.store e
          call (.recordFailure j.id (failedResult now error.describe)) fun _ =>
            done ⟨j.id, j.name, .failed, none, some error.describe⟩ := by
  unfold process execute
  simp only [hdue, hnext, if_true, bind_eq_bind, send_bind, call_bind, pure_eq_done]
  congr 1
  funext r
  cases r with
  | ok _ => rfl
  | error e => rfl

theorem processAll_cons (j : Job) (rest : List Job) :
    processAll now (j :: rest) =
      (process j now).bind fun o => (processAll now rest).bind fun os => done (o :: os) := rfl

/-! ## One row -/

theorem later_of_not_due {j : Job} (hdue : j.isDue now = false) :
    ∃ next, j.nextExecution = some next ∧ now < next := by
  unfold Job.isDue at hdue
  split at hdue
  · rename_i next hnext
    exact ⟨next, hnext, Instant.not_le.mp (of_decide_eq_false hdue)⟩
  · cases hdue

theorem turn_of_fails {s : JobStore} {j : Job} (hrow : s.get? j.id = some j)
    (hdue : j.isDue now = true) {k k' : Nat} {error : JobError}
    (hfails : Fails moments now j k error k') :
    let c := StoreCall.recordFailure j.id (failedResult now error.describe)
    (∃ row r, Turn moments now j k ⟨j.id, j.name, .failed, none, some error.describe⟩ row (k' + 1) ∧
      (moments k').perform s c = (some r, s.put row)) ∨
    Breaks moments now j k j ∧ (moments k').perform s c = (none, s) := by
  intro c
  cases hfault : (moments k').fault? c with
  | some e =>
    refine Or.inl ⟨j, .error e, .unrecorded hdue hfails hfault, ?_⟩
    rw [Moment.perform_of_fault hfault, JobStore.put_of_get? hrow]
  | none =>
    have hperform := Moment.perform_recordFailure hfault hrow
    by_cases hroom : j.errorCount < Text.i32Max
    · rw [if_pos hroom] at hperform
      exact Or.inl ⟨_, _, .failed hdue hfails hfault, hperform⟩
    · rw [if_neg hroom] at hperform
      exact Or.inr ⟨.failure hdue hfails hroom, hperform⟩

/-- A row that is in the store as it was fetched takes its turn, or breaks the poll off. -/
theorem process_run {s : JobStore} {j : Job} (hrow : s.get? j.id = some j)
    (moments : Nat → Moment) (now : Instant) (k : Nat) :
    (∃ o row k', Turn moments now j k o row k' ∧
      ∀ {β : Type} (f : JobOutcome → StoreScript β),
        ((process j now).bind f).run moments k s = (f o).run moments k' (s.put row)) ∨
    ∃ row, Breaks moments now j k row ∧
      ∀ {β : Type} (f : JobOutcome → StoreScript β),
        ((process j now).bind f).run moments k s = (none, s.put row) := by
  cases hdue : j.isDue now with
  | false =>
    obtain ⟨next, hnext, hlater⟩ := later_of_not_due hdue
    refine Or.inl ⟨_, _, _, .skipped hnext hlater, fun f => ?_⟩
    rw [process_of_not_due hdue, done_bind, hnext, JobStore.put_of_get? hrow]
  | true =>
    cases hnext : nextExecution j.scheduleExpression now with
    | none =>
      have hfails : Fails moments now j k _ k := .unscheduled hnext
      have hprocess := process_of_unscheduled hdue hnext
      rcases turn_of_fails hrow hdue hfails with ⟨row, r, hturn, hput⟩ | ⟨hbreaks, hput⟩
      · refine Or.inl ⟨_, row, _, hturn, fun f => ?_⟩
        rw [hprocess, call_bind, run_call_of_eq hput]
        rfl
      · refine Or.inr ⟨j, hbreaks, fun f => ?_⟩
        rw [hprocess, call_bind, run_call_of_eq hput, JobStore.put_of_get? hrow]
        rfl
    | some next =>
      have hprocess := process_of_scheduled hdue hnext
      cases hfault : (moments k).fault?
          (.recordExecution j.id ⟨now, next, executedResult now next⟩) with
      | none =>
        have hperform := Moment.perform_recordExecution hfault hrow
        by_cases hroom : j.executionCount < Text.i32Max
        · rw [if_pos hroom] at hperform
          refine Or.inl ⟨_, _, _, .executed hdue hnext hfault, fun f => ?_⟩
          rw [hprocess, call_bind, run_call_of_eq hperform]
          rfl
        · rw [if_neg hroom] at hperform
          refine Or.inr ⟨_, .run hdue hnext hroom, fun f => ?_⟩
          rw [hprocess, call_bind, run_call_of_eq hperform]
          rfl
      | some e =>
        -- The refused run has changed nothing, so that the failure is written to the same store.
        have hrefused := Moment.perform_of_fault hfault s
        rcases turn_of_fails hrow hdue (.refused hnext hfault) with
          ⟨row, r, hturn, hput⟩ | ⟨hbreaks, hput⟩
        · refine Or.inl ⟨_, row, _, hturn, fun f => ?_⟩
          rw [hprocess, call_bind, run_call_of_eq hrefused]
          simp only [resume_some, call_bind, done_bind]
          rw [run_call_of_eq hput, resume_some]
        · refine Or.inr ⟨j, hbreaks, fun f => ?_⟩
          rw [hprocess, call_bind, run_call_of_eq hrefused]
          simp only [resume_some, call_bind, done_bind]
          rw [run_call_of_eq hput, resume_none, run_broken, JobStore.put_of_get? hrow]

/-! ## A batch -/

theorem processAll_run {s : JobStore} {jobs : List Job} (hrows : ∀ j ∈ jobs, s.get? j.id = some j)
    (hids : (jobs.map (·.id)).Nodup) (moments : Nat → Moment) (now : Instant) (k : Nat) :
    (∃ os rows k', Turns moments now k jobs os rows k' ∧
      ∀ {β : Type} (f : List JobOutcome → StoreScript β),
        ((processAll now jobs).bind f).run moments k s = (f os).run moments k' (s.putAll rows)) ∨
    ∃ rows, BrokenTurns moments now k jobs rows ∧
      ∀ {β : Type} (f : List JobOutcome → StoreScript β),
        ((processAll now jobs).bind f).run moments k s = (none, s.putAll rows) := by
  induction jobs generalizing s k with
  | nil => exact Or.inl ⟨[], [], k, .nil k, fun f => rfl⟩
  | cons j rest ih =>
    rw [List.map_cons, List.nodup_cons] at hids
    rcases process_run (hrows j List.mem_cons_self) moments now k with
      ⟨o, row, k₁, hturn, hrun⟩ | ⟨row, hbreaks, hrun⟩
    · -- The turn of `j` leaves the rows of the others as they were fetched.
      have hothers : ∀ i ∈ rest, (s.put row).get? i.id = some i := by
        intro i hi
        have hne : i.id ≠ row.id := by
          rw [hturn.id_eq]
          intro heq
          exact hids.1 (heq ▸ List.mem_map_of_mem hi)
        rw [JobStore.get?_put_of_ne s hne]
        exact hrows i (List.mem_cons_of_mem j hi)
      rcases ih hothers hids.2 k₁ with ⟨os, rows, k₂, hturns, hrest⟩ | ⟨rows, hbroken, hrest⟩
      · refine Or.inl ⟨o :: os, row :: rows, k₂, .cons hturn hturns, fun f => ?_⟩
        rw [processAll_cons, bind_assoc, hrun, bind_assoc, hrest]
        rfl
      · refine Or.inr ⟨row :: rows, .later hturn hbroken, fun f => ?_⟩
        rw [processAll_cons, bind_assoc, hrun, bind_assoc, hrest]
        rfl
    · refine Or.inr ⟨[row], .here hbreaks, fun f => ?_⟩
      rw [processAll_cons, bind_assoc, hrun]
      rfl

theorem poll_run_of_fault {m : Moment} {limit : Int} {e : ServiceError}
    (h : m.fault? (.listActive limit) = some e) {n : Nat} (hm : moments n = m) (s : JobStore)
    (now : Instant) (durationMs : Nat) :
    (poll limit now durationMs).run moments n s = (some (.error e), s) := by
  subst hm
  exact run_call_of_eq (Moment.perform_of_fault h s) _

theorem poll_run {s : JobStore} (hids : s.DistinctIds) (moments : Nat → Moment) {n : Nat}
    {limit : Int} (hfetch : (moments n).fault? (.listActive limit) = none) (now : Instant)
    (durationMs : Nat) :
    (∃ os rows k', Turns moments now (n + 1) (s.listActive limit) os rows k' ∧
      (poll limit now durationMs).run moments n s =
        (some (.ok ⟨.ofOutcomes os, os, durationMs⟩), s.putAll rows)) ∨
    ∃ rows, BrokenTurns moments now (n + 1) (s.listActive limit) rows ∧
      (poll limit now durationMs).run moments n s = (none, s.putAll rows) := by
  have hrows : ∀ j ∈ s.listActive limit, s.get? j.id = some j := fun j hj =>
    JobStore.get?_of_mem hids (JobStore.mem_of_mem_listActive hj)
  have hperform : (moments n).perform s (.listActive limit) =
      (some (.ok (s.listActive limit)), s) :=
    Moment.perform_of_no_fault hfetch s
  have hpoll : (poll limit now durationMs).run moments n s =
      ((processAll now (s.listActive limit)).bind fun os =>
        done (.ok ⟨.ofOutcomes os, os, durationMs⟩)).run moments (n + 1) s :=
    run_call_of_eq hperform _
  rw [hpoll]
  rcases processAll_run hrows (JobStore.nodup_listActive hids limit) moments now (n + 1) with
    ⟨os, rows, k', hturns, hrun⟩ | ⟨rows, hbroken, hrun⟩
  · exact Or.inl ⟨os, rows, k', hturns, hrun _⟩
  · exact Or.inr ⟨rows, hbroken, hrun _⟩

theorem poll_cases {s s' : JobStore} (hids : s.DistinctIds) {n : Nat} {limit : Int}
    {durationMs : Nat} {r : Option (Except ServiceError PollReport)}
    (hrun : (poll limit now durationMs).run moments n s = (r, s')) :
    (∃ e, r = some (.error e) ∧ s' = s) ∨
    (∃ os rows k', Turns moments now (n + 1) (s.listActive limit) os rows k' ∧
      (rows.map (·.id)).Nodup ∧ r = some (.ok ⟨.ofOutcomes os, os, durationMs⟩) ∧
      s' = s.putAll rows) ∨
    ∃ rows, BrokenTurns moments now (n + 1) (s.listActive limit) rows ∧
      (rows.map (·.id)).Nodup ∧ r = none ∧ s' = s.putAll rows := by
  cases hfault : (moments n).fault? (.listActive limit) with
  | some e =>
    rw [poll_run_of_fault hfault rfl, Prod.mk.injEq] at hrun
    exact Or.inl ⟨e, hrun.1.symm, hrun.2.symm⟩
  | none =>
    have hnodup := JobStore.nodup_listActive hids limit
    rcases poll_run hids moments hfault now durationMs with
      ⟨os, rows, k', hturns, hpoll⟩ | ⟨rows, hbroken, hpoll⟩
    · rw [hpoll, Prod.mk.injEq] at hrun
      exact Or.inr (Or.inl ⟨os, rows, k', hturns, hturns.ids_eq ▸ hnodup, hrun.1.symm,
        hrun.2.symm⟩)
    · rw [hpoll, Prod.mk.injEq] at hrun
      exact Or.inr (Or.inr ⟨rows, hbroken, hbroken.ids_sublist.nodup hnodup, hrun.1.symm,
        hrun.2.symm⟩)

/-! ## The report -/

theorem countP_tellsRun_le_one {os : List JobOutcome} (h : (os.map (·.jobId)).Nodup) (id : Int) :
    os.countP (·.tellsRun id) ≤ 1 := by
  have hcount := List.nodup_iff_count.mp h id
  rw [List.count, List.countP_map] at hcount
  refine Nat.le_trans (List.countP_mono_left fun o _ ho => ?_) hcount
  have := of_decide_eq_true ho
  simp [this.1]

theorem totalJobs_ofOutcomes (os : List JobOutcome) :
    (PollSummary.ofOutcomes os).totalJobs =
      (PollSummary.ofOutcomes os).executed + (PollSummary.ofOutcomes os).skipped +
        (PollSummary.ofOutcomes os).failed := by
  unfold PollSummary.ofOutcomes
  simp only
  induction os with
  | nil => rfl
  | cons o rest ih =>
    simp only [List.length_cons, List.filter_cons]
    cases o.status <;> simp <;> omega

end Poll

/-- A poll of a store with distinct ids whose counters have room. Without its batch the poll is the
error of fetching it, and the store stays as it is. With it, each of the first active rows takes its
turn, and has a result, in the order of the store; the counts are those of the results. After the
poll the rows of the batch are what their turns make of them, and all others are what they were. -/
theorem poll_settles_rows {s : JobStore} (hids : s.DistinctIds)
    (hroom : ∀ j ∈ s.rows, j.executionCount < Text.i32Max ∧ j.errorCount < Text.i32Max)
    (moments : Nat → Moment) (n : Nat) (limit : Int) (now : Instant) (durationMs : Nat) :
    (∀ e, (moments n).fault? (.listActive limit) = some e →
      (poll limit now durationMs).run moments n s = (some (.error e), s)) ∧
    ((moments n).fault? (.listActive limit) = none →
      let batch := (s.rows.filter (·.isActive)).take (max limit 0).toNat
      let count (os : List JobOutcome) (status : OutcomeStatus) := os.countP (·.status == status)
      ∃ report s' rows k,
        (poll limit now durationMs).run moments n s = (some (.ok report), s') ∧
        Poll.Turns moments now (n + 1) batch report.results rows k ∧
        report.results.map (·.jobId) = batch.map (·.id) ∧
        report.summary.totalJobs = batch.length ∧
        report.summary.totalJobs =
          report.summary.executed + report.summary.skipped + report.summary.failed ∧
        report.summary.executed = count report.results .executed ∧
        report.summary.skipped = count report.results .skipped ∧
        report.summary.failed = count report.results .failed ∧
        s'.ids = s.ids ∧
        (∀ row ∈ rows, s'.get? row.id = some row) ∧
        ∀ j ∈ s.rows, j ∉ batch → s'.get? j.id = some j) := by
  refine ⟨fun e hfault => Poll.poll_run_of_fault hfault rfl s now durationMs, fun hfetch => ?_⟩
  have hbatch : (s.rows.filter (·.isActive)).take (max limit 0).toNat = s.listActive limit := by
    unfold JobStore.listActive
    congr 1
    omega
  simp only [hbatch]
  -- As all counters have room, no turn breaks off.
  obtain ⟨os, rows, k, hturns, hrun⟩ :=
    (Poll.poll_run hids moments hfetch now durationMs).resolve_right fun ⟨rows, hbroken, _⟩ => by
      obtain ⟨j, hj, hfull⟩ := hbroken.exists_full
      exact hfull (hroom j (JobStore.mem_of_mem_listActive hj))
  have hrowids : rows.map (·.id) = (s.listActive limit).map (·.id) := hturns.ids_eq
  have hnodup : (rows.map (·.id)).Nodup := hrowids ▸ JobStore.nodup_listActive hids limit
  have hcount (status : OutcomeStatus) :
      (os.filter (·.status == status)).length = os.countP (·.status == status) :=
    List.countP_eq_length_filter.symm
  refine ⟨_, _, rows, k, hrun, hturns, hturns.jobIds_eq, ?_, Poll.totalJobs_ofOutcomes os, hcount _,
    hcount _, hcount _, JobStore.ids_putAll s rows, ?_, ?_⟩
  · have := congrArg List.length hturns.jobIds_eq
    simpa [PollSummary.ofOutcomes] using this
  · intro row hrow
    have hold : row.id ∈ (s.listActive limit).map (·.id) := hrowids ▸ List.mem_map_of_mem hrow
    exact JobStore.get?_putAll_of_mem hnodup hrow
      (((s.listActive_sublist limit).map _).subset hold)
  -- Ids being distinct, a row outside the batch has none of its ids.
  · intro j hj hout
    have hnot : j.id ∉ rows.map (·.id) := by
      rw [hrowids]
      intro hmem
      obtain ⟨i, hi, hid⟩ := List.mem_map.mp hmem
      have hsame : s.get? j.id = some i :=
        hid ▸ JobStore.get?_of_mem hids (JobStore.mem_of_mem_listActive hi)
      rw [JobStore.get?_of_mem hids hj, Option.some.injEq] at hsame
      exact hout (hsame ▸ hi)
    rw [JobStore.get?_putAll_of_not_mem s hnot]
    exact JobStore.get?_of_mem hids hj

/-- Two of three active rows are polled while the second call fails; the third one is left alone. -/
theorem poll_settles_two_of_four_rows :
    let row (id : Int) (isActive : Bool) : Job := { (default : Job) with id, isActive }
    let s : JobStore := ⟨[row 1 true, row 2 false, row 3 true, row 4 true]⟩
    let moments (k : Nat) : Moment :=
      ⟨.epoch, fun _ => if k = 1 then some (.internal ["busy"]) else none⟩
    s.DistinctIds ∧
      (∀ j ∈ s.rows, j.executionCount < Text.i32Max ∧ j.errorCount < Text.i32Max) ∧
      ∃ report s', (poll 2 .epoch 0).run moments 0 s = (some (.ok report), s') ∧
        report.results.map (·.jobId) = [1, 3] ∧ s'.get? 4 = some (row 4 true) := by
  intro row s moments
  have hids : s.DistinctIds := by decide
  have hroom : ∀ j ∈ s.rows, j.executionCount < Text.i32Max ∧ j.errorCount < Text.i32Max := by
    decide
  obtain ⟨report, s', rows, k, hrun, -, hresults, -, -, -, -, -, -, -, hothers⟩ :=
    (poll_settles_rows hids hroom moments 0 2 .epoch 0).2 rfl
  refine ⟨hids, hroom, report, s', hrun, hresults, hothers (row 4 true) (by simp [s]) ?_⟩
  intro hmem
  have : (row 4 true).id ∈ [row 1 true, row 3 true].map (·.id) := List.mem_map_of_mem hmem
  simp [row] at this

end Cadence
