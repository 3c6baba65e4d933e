import Cadence.Job.Seed
import Cadence.Proofs.Job.Poll
import Cadence.Proofs.Schedule.Progress

/-!
# Errands

Polls and seedings, as pieces of work on one store, and the calls that each of them makes.
-/

namespace Cadence

open StoreScript

/-! ## Forward -/

/-- The next run of a row that has been run is later than the run. -/
def Job.Forward (j : Job) : Prop :=
  ∀ last, j.lastExecuted = some last → ∃ next, j.nextExecution = some next ∧ last < next

/-- All rows are forward. -/
def JobStore.Forward (s : JobStore) : Prop := ∀ j ∈ s.rows, j.Forward

/-- A run is written down with a later next one. -/
def StoreCall.Forward : StoreCall → Prop
  | .recordExecution _ record => record.executedAt < record.nextExecution
  | _ => True

theorem Job.forward_withRun (j : Job) {record : ExecutionRecord}
    (h : record.executedAt < record.nextExecution) : (j.withRun record).Forward := by
  intro last hlast
  rw [show last = record.executedAt from (Option.some.inj hlast).symm]
  exact ⟨_, rfl, h⟩

theorem JobStore.Forward.put {s : JobStore} (hs : s.Forward) {row : Job} (hrow : row.Forward) :
    (s.put row).Forward := by
  intro j hj
  rcases JobStore.mem_put hj with rfl | hj
  · exact hrow
  · exact hs j hj

theorem Effect.forward {s t : JobStore} {x : Exchange} (h : Effect s x t)
    (hcall : x.call.Forward) (hs : s.Forward) : t.Forward := by
  cases h with
  | refused | list | listActive | present | brokenFailure | brokenInsertion => exact hs
  | @executed id j record clock =>
    have hrow : (j.withExecution record clock).Forward := j.forward_withRun hcall
    exact hs.put hrow
  | brokenRun record => exact hs.put (Job.forward_withRun _ hcall)
  | @failed id j result clock hrow =>
    have hrow' : (j.withFailure result clock).Forward := hs j (JobStore.mem_of_get? hrow)
    exact hs.put hrow'
  | inserted job clock hhas =>
    obtain ⟨row, hrows, -, hnone, -⟩ := s.rows_append job clock
    intro j hj last hlast
    rw [hrows, List.mem_append, List.mem_singleton] at hj
    rcases hj with hj | rfl
    · exact hs j hj last hlast
    · rw [hnone] at hlast
      cases hlast

/-! ## The calls of a poll -/

namespace Poll

/-- The calls that a poll at `now` makes: a run is written down with the next one of some
expression. -/
def Calls (now : Instant) : StoreCall → Prop
  | .listActive _ | .recordFailure .. => True
  | .recordExecution _ record =>
    record.executedAt = now ∧
      ∃ expression, nextExecution expression now = some record.nextExecution
  | .list | .insertIfAbsent _ => False

variable {now : Instant}

theorem process_only (j : Job) : (process j now).Only (Calls now) := by
  cases hdue : j.isDue now with
  | false =>
    rw [process_of_not_due hdue]
    exact trivial
  | true =>
    cases hnext : nextExecution j.scheduleExpression now with
    | none =>
      rw [process_of_unscheduled hdue hnext]
      exact ⟨trivial, fun _ => trivial⟩
    | some next =>
      rw [process_of_scheduled hdue hnext]
      refine ⟨⟨rfl, _, hnext⟩, fun r => ?_⟩
      cases r with
      | ok _ => exact trivial
      | error e => exact ⟨trivial, fun _ => trivial⟩

theorem processAll_only (jobs : List Job) : (processAll now jobs).Only (Calls now) := by
  induction jobs with
  | nil => exact trivial
  | cons j rest ih =>
    rw [processAll_cons]
    exact (process_only j).bind fun _ => ih.bind fun _ => trivial

theorem poll_only (limit : Int) (durationMs : Nat) :
    (poll limit now durationMs).Only (Calls now) := by
  refine ⟨trivial, fun r => ?_⟩
  cases r with
  | error e => exact trivial
  | ok jobs => exact (processAll_only jobs).bind fun _ => trivial

end Poll

/-! ## The calls of a seeding -/

/-- The call puts in a job if there is none for its function. -/
def StoreCall.Inserts : StoreCall → Prop
  | .insertIfAbsent _ => True
  | _ => False

theorem Poll.Calls.not_inserts {now : Instant} {c : StoreCall} (h : Poll.Calls now c) :
    ¬ c.Inserts := by
  cases c with
  | insertIfAbsent => exact h.elim
  | _ => exact id

theorem StoreCall.Inserts.not_recordExecution {x : Exchange} (h : x.call.Inserts) (id : Int) :
    x.writesRun id = false ∧ x.movesRun id = false := by
  obtain ⟨c, outcome⟩ := x
  cases c with
  | insertIfAbsent job => exact ⟨rfl, rfl⟩
  | _ => exact h.elim

theorem seed_only (definitions : List JobDefinition) :
    (seed definitions).Only StoreCall.Inserts := by
  induction definitions with
  | nil => exact trivial
  | cons d rest ih =>
    refine ⟨trivial, fun r => ?_⟩
    cases r with
    | error e => exact trivial
    | ok isNew => exact ih.bind fun _ => trivial

/-- What a seeding reports of one definition. -/
def SeedReport.ofOne (d : JobDefinition) (isNew : Bool) : SeedReport :=
  if isNew then ⟨[d.functionName], []⟩ else ⟨[], [d.functionName]⟩

theorem SeedReport.append_assoc (r s t : SeedReport) :
    (r.append s).append t = r.append (s.append t) := by
  simp [append, List.append_assoc]

theorem seed_cons (d : JobDefinition) (rest : List JobDefinition) :
    seed (d :: rest) = call (.insertIfAbsent d.toNewJob) fun
      | .error e => done (.error e)
      | .ok (isNew : Bool) =>
        (seed rest).bind fun r => done (r.map (SeedReport.ofOne d isNew).append) := by
  rw [seed]
  rfl

theorem seed_append (first second : List JobDefinition) :
    seed (first ++ second) = (seed first).bind fun
      | .error e => done (.error e)
      | .ok r => (seed second).bind fun r' => done (r'.map r.append) := by
  induction first with
  | nil =>
    -- An empty first list puts an empty report before that of the second one.
    have hself (r : Except ServiceError SeedReport) : r.map SeedReport.empty.append = r := by
      cases r <;> rfl
    change seed second = (seed second).bind fun r' => done (r'.map SeedReport.empty.append)
    simp only [hself, bind_done]
  | cons d rest ih =>
    rw [List.cons_append, seed_cons, seed_cons, call_bind]
    congr 1
    funext r
    cases r with
    | error e => rfl
    | ok isNew =>
      simp only [ih, bind_assoc, done_bind]
      congr 1
      funext r
      cases r with
      | error e => rfl
      | ok report =>
        simp only [Except.map, bind_assoc, done_bind]
        congr 1
        funext r'
        cases r' with
        | error e => rfl
        | ok report' => simp only [SeedReport.append_assoc]

theorem seedAll_eq_seed : seedAll = seed (JobDefinition.initial ++ JobDefinition.maintenance) := by
  rw [seed_append]
  rfl

/-! ## Polls and seedings -/

/-- A piece of work on a store. -/
inductive Errand
  | poll (limit : Int) (now : Instant) (durationMs : Nat)
  | seed (definitions : List JobDefinition)

/-- What comes of a piece of work. -/
inductive Answer
  | polled (r : Except ServiceError PollReport)
  | seeded (r : Except ServiceError SeedReport)
  deriving DecidableEq

namespace Errand

def script : Errand → StoreScript Answer
  | poll limit now durationMs => .polled <$> Cadence.poll limit now durationMs
  | seed definitions => .seeded <$> Cadence.seed definitions

theorem only_forward (e : Errand) : e.script.Only StoreCall.Forward := by
  cases e with
  | poll limit now durationMs =>
    refine ((Poll.poll_only limit durationMs).mono ?_).bind fun _ => trivial
    intro c hc
    cases c with
    | recordExecution id record =>
      obtain ⟨hnow, expression, hnext⟩ := hc
      change record.executedAt < record.nextExecution
      rw [hnow]
      exact lt_of_nextExecution hnext
    | _ => trivial
  | seed definitions =>
    refine ((seed_only definitions).mono ?_).bind fun _ => trivial
    intro c hc
    cases c with
    | recordExecution => exact hc.elim
    | _ => trivial

end Errand

end Cadence
