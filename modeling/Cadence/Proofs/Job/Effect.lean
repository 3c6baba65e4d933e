import Cadence.Proofs.Job.Store
import Cadence.Proofs.Time.Elapsed

/-!
# What a call does to a store

`Effect` says all that a call can do, so that what holds of every call is shown by a look at its
cases.
-/

namespace Cadence

/-- A call that was made, and what came of it. -/
structure Exchange where
  call : StoreCall
  outcome : call.Outcome

/-- What a call with its outcome makes of a store. An error leaves it as it is, and so does a call
that breaks off, but for one: a run has been put down before it is counted. -/
inductive Effect : JobStore → Exchange → JobStore → Prop
  | refused (s : JobStore) (c : StoreCall) (e : ServiceError) : Effect s ⟨c, some (.error e)⟩ s
  | list (s : JobStore) : Effect s ⟨.list, some (.ok s.rows)⟩ s
  | listActive (s : JobStore) (limit : Int) :
      Effect s ⟨.listActive limit, some (.ok (s.listActive limit))⟩ s
  | executed {s : JobStore} {id : Int} {j : Job} (record : ExecutionRecord) (clock : Instant)
      (hrow : s.get? id = some j) (hroom : j.executionCount < Text.i32Max) :
      Effect s ⟨.recordExecution id record, some (.ok ())⟩ (s.put (j.withExecution record clock))
  | brokenRun {s : JobStore} {id : Int} {j : Job} (record : ExecutionRecord)
      (hrow : s.get? id = some j) (hfull : ¬ j.executionCount < Text.i32Max) :
      Effect s ⟨.recordExecution id record, none⟩ (s.put (j.withRun record))
  | failed {s : JobStore} {id : Int} {j : Job} (result : Json) (clock : Instant)
      (hrow : s.get? id = some j) (hroom : j.errorCount < Text.i32Max) :
      Effect s ⟨.recordFailure id result, some (.ok ())⟩ (s.put (j.withFailure result clock))
  | brokenFailure {s : JobStore} {id : Int} {j : Job} (result : Json) (hrow : s.get? id = some j)
      (hfull : ¬ j.errorCount < Text.i32Max) : Effect s ⟨.recordFailure id result, none⟩ s
  | present (s : JobStore) (job : NewJob) (hhas : s.hasFunction job.functionName = true) :
      Effect s ⟨.insertIfAbsent job, some (.ok false)⟩ s
  | inserted (s : JobStore) (job : NewJob) (clock : Instant)
      (hhas : s.hasFunction job.functionName = false) (hroom : s.greatestId < Text.i32Max) :
      Effect s ⟨.insertIfAbsent job, some (.ok true)⟩ (s.append job clock)
  | brokenInsertion (s : JobStore) (job : NewJob) (hhas : s.hasFunction job.functionName = false)
      (hfull : ¬ s.greatestId < Text.i32Max) : Effect s ⟨.insertIfAbsent job, none⟩ s

namespace Moment

variable {m : Moment} {s : JobStore} {id : Int} {record : ExecutionRecord} {result : Json} {j : Job}

theorem perform_of_fault {c : StoreCall} {e : ServiceError} (h : m.fault? c = some e)
    (s : JobStore) : m.perform s c = (some (.error e), s) := by
  unfold perform
  rw [h]

theorem perform_of_no_fault {c : StoreCall} (h : m.fault? c = none) (s : JobStore) :
    m.perform s c = c.perform m.clock s := by
  unfold perform
  rw [h]

theorem perform_recordExecution (h : m.fault? (.recordExecution id record) = none)
    (hrow : s.get? id = some j) :
    m.perform s (.recordExecution id record) =
      if j.executionCount < Text.i32Max then
        (some (.ok ()), s.put (j.withExecution record m.clock))
      else (none, s.put (j.withRun record)) := by
  rw [perform_of_no_fault h, StoreCall.perform, hrow]

theorem perform_recordFailure (h : m.fault? (.recordFailure id result) = none)
    (hrow : s.get? id = some j) :
    m.perform s (.recordFailure id result) =
      if j.errorCount < Text.i32Max then (some (.ok ()), s.put (j.withFailure result m.clock))
      else (none, s) := by
  rw [perform_of_no_fault h, StoreCall.perform, hrow]

theorem effect_perform (m : Moment) (s : JobStore) (c : StoreCall) :
    Effect s ⟨c, (m.perform s c).1⟩ (m.perform s c).2 := by
  cases hfault : m.fault? c with
  | some e =>
    rw [perform_of_fault hfault]
    exact .refused s c e
  | none =>
    cases c with
    | list =>
      rw [perform_of_no_fault hfault]
      exact .list s
    | listActive limit =>
      rw [perform_of_no_fault hfault]
      exact .listActive s limit
    | recordExecution id record =>
      cases hrow : s.get? id with
      | some j =>
        rw [perform_recordExecution hfault hrow]
        split
        · exact .executed record m.clock hrow ‹_›
        · exact .brokenRun record hrow ‹_›
      | none =>
        rw [perform_of_no_fault hfault, StoreCall.perform, hrow]
        exact .refused s _ _
    | recordFailure id result =>
      cases hrow : s.get? id with
      | some j =>
        rw [perform_recordFailure hfault hrow]
        split
        · exact .failed result m.clock hrow ‹_›
        · exact .brokenFailure result hrow ‹_›
      | none =>
        rw [perform_of_no_fault hfault, StoreCall.perform, hrow]
        exact .refused s _ _
    | insertIfAbsent job =>
      rw [perform_of_no_fault hfault, StoreCall.perform]
      split
      · rename_i hhas
        exact .present s job hhas
      · rename_i hhas
        split
        · exact .inserted s job m.clock (by simpa using hhas) ‹_›
        · exact .brokenInsertion s job (by simpa using hhas) ‹_›

end Moment

/-! ## Kinds of calls -/

/-- A batch that was fetched. -/
def Exchange.fetches : Exchange → Bool
  | ⟨.listActive _, some (.ok _)⟩ => true
  | _ => false

/-- A run of the job that was written down. -/
def Exchange.writesRun (id : Int) : Exchange → Bool
  | ⟨.recordExecution i _, some (.ok _)⟩ => i = id
  | _ => false

/-- A failure of the job that was written down. -/
def Exchange.writesFailure (id : Int) : Exchange → Bool
  | ⟨.recordFailure i _, some (.ok _)⟩ => i = id
  | _ => false

/-- A run of the job that was put down, counted or not. -/
def Exchange.movesRun (id : Int) : Exchange → Bool
  | ⟨.recordExecution i _, some (.ok _)⟩ | ⟨.recordExecution i _, none⟩ => i = id
  | _ => false

theorem Exchange.writesRun_iff {x : Exchange} {id : Int} :
    x.writesRun id = true ↔ ∃ record, x = ⟨.recordExecution id record, some (.ok ())⟩ := by
  unfold writesRun
  split
  · rename_i i record u
    constructor
    · intro h
      have hid : i = id := of_decide_eq_true h
      rw [hid]
      exact ⟨record, rfl⟩
    · rintro ⟨record', h⟩
      cases h
      exact decide_eq_true rfl
  · rename_i h
    apply iff_of_false Bool.false_ne_true
    rintro ⟨record, rfl⟩
    exact h id record () rfl

theorem Exchange.movesRun_of_answered {x : Exchange} (h : x.outcome ≠ none) (id : Int) :
    x.movesRun id = x.writesRun id := by
  obtain ⟨c, outcome⟩ := x
  cases c with
  | recordExecution i record =>
    rcases outcome with _ | _ | _
    · exact absurd rfl h
    · rfl
    · rfl
  | _ => rfl

/-! ## The next run of a row -/

/-- The next run of a job is at an instant or later. -/
def JobStore.RestsUntil (s : JobStore) (id : Int) (u : Instant) : Prop :=
  ∃ j next, s.get? id = some j ∧ j.nextExecution = some next ∧ u ≤ next

theorem Job.le_of_isDue {j : Job} {now next : Instant} (hdue : j.isDue now = true)
    (hnext : j.nextExecution = some next) : next ≤ now := by
  unfold isDue at hdue
  rw [hnext] at hdue
  exact of_decide_eq_true hdue

theorem JobStore.RestsUntil.le_of_isDue {s : JobStore} {id : Int} {u now : Instant} {j : Job}
    (h : s.RestsUntil id u) (hj : s.get? id = some j) (hdue : j.isDue now = true) : u ≤ now := by
  obtain ⟨row, next, hrow, hnext, hle⟩ := h
  obtain rfl : row = j := Option.some.inj (hrow.symm.trans hj)
  exact Instant.le_trans hle (Job.le_of_isDue hdue hnext)

theorem Effect.restsUntil {s t : JobStore} {x : Exchange} {id : Int} {u : Instant}
    (h : Effect s x t) (hx : x.movesRun id = false) (hs : s.RestsUntil id u) :
    t.RestsUntil id u := by
  obtain ⟨j, next, hj, hnext⟩ := hs
  have hother {i : Int} {row row' : Job} (hrow : s.get? i = some row) (hid : row'.id = row.id)
      (hi : decide (i = id) = false) : (s.put row').RestsUntil id u := by
    have hne : id ≠ row'.id := by
      rw [hid, JobStore.id_of_get? hrow]
      exact fun heq => of_decide_eq_false hi heq.symm
    exact ⟨j, next, (JobStore.get?_put_of_ne s hne).trans hj, hnext⟩
  cases h with
  | refused | list | listActive | present | brokenFailure | brokenInsertion =>
    exact ⟨j, next, hj, hnext⟩
  | executed record clock hrow => exact hother hrow (Job.withExecution_id ..) hx
  | brokenRun record hrow => exact hother hrow (Job.withRun_id ..) hx
  | @failed i row result clock hrow =>
    by_cases hid : id = (row.withFailure result clock).id
    · subst hid
      have hsame : row = j := by
        rw [Job.withFailure_id, JobStore.id_of_get? hrow, hrow, Option.some.injEq] at hj
        exact hj
      subst hsame
      exact ⟨_, next, JobStore.get?_put_self rfl hj, hnext⟩
    · exact ⟨j, next, (JobStore.get?_put_of_ne s hid).trans hj, hnext⟩
  | inserted job clock => exact ⟨j, next, JobStore.get?_append_of_some hj, hnext⟩

theorem Effect.restsUntil_of_writesRun {s t : JobStore} {id : Int} {record : ExecutionRecord}
    (h : Effect s ⟨.recordExecution id record, some (.ok ())⟩ t) :
    t.RestsUntil id record.nextExecution := by
  cases h with
  | @executed _ j record clock hrow =>
    have hid : j.id = id := JobStore.id_of_get? hrow
    exact ⟨_, _, JobStore.get?_put_self hid hrow, rfl, Instant.le_refl _⟩

theorem Effect.of_fetches {s t : JobStore} {limit : Int} {jobs : List Job}
    (h : Effect s ⟨.listActive limit, some (.ok jobs)⟩ t) :
    jobs = s.listActive limit ∧ t = s := by
  cases h with
  | listActive => exact ⟨rfl, rfl⟩

end Cadence
