import Cadence.Job.Basic

/-!
# The job store

A table of jobs in ascending order of their ids. Each operation works on the first row of an id.
-/

namespace Cadence

structure JobStore where
  rows : List Job
  deriving Repr, Inhabited

namespace JobStore

def empty : JobStore := ⟨[]⟩

/-- The store of given rows, in the order of their ids; rows of one id keep their order. -/
def ofRows (rows : List Job) : JobStore := ⟨rows.mergeSort fun a b => a.id ≤ b.id⟩

def get? (s : JobStore) (id : Int) : Option Job := s.rows.find? (·.id = id)

/-- The first active rows; a negative limit admits none. -/
def listActive (s : JobStore) (limit : Int) : List Job :=
  (s.rows.filter (·.isActive)).take limit.toNat

/-- The rows with a job in the place of the first one of its id. -/
def putRow (j : Job) : List Job → List Job
  | [] => []
  | r :: rest => if r.id = j.id then j :: rest else r :: putRow j rest

/-- The store with a job in the place of the first row of its id. -/
def put (s : JobStore) (j : Job) : JobStore := ⟨putRow j s.rows⟩

def notFound (id : Int) : ServiceError := .notFound "CronJob" "id" (toString id)

/-- The ids of the rows, in the order of the rows. -/
def ids (s : JobStore) : List Int := s.rows.map (·.id)

/-- The greatest id; 0 in an empty store. -/
def greatestId (s : JobStore) : Int :=
  match s.ids with
  | [] => 0
  | id :: rest => rest.foldl max id

def hasFunction (s : JobStore) (name : String) : Bool := s.rows.any (·.functionName == name)

/-- The store with a new row at its end, which has the id after the greatest one. -/
def append (s : JobStore) (job : NewJob) (clock : Instant) : JobStore :=
  ⟨s.rows ++ [{
    id := s.greatestId + 1
    name := job.name
    functionName := job.functionName
    scheduleExpression := job.scheduleExpression
    isActive := job.isActive
    nextExecution := job.nextExecution
    lastExecuted := none
    executionCount := 0
    errorCount := 0
    maxRetries := job.maxRetries
    timeoutSeconds := job.timeoutSeconds
    lastResult := none
    description := job.description
    createdAt := clock
    updatedAt := clock }]⟩

end JobStore

/-! ## Calls -/

/-- A call on a job store. Each one is atomic. -/
inductive StoreCall
  | list
  | listActive (limit : Int)
  | recordExecution (id : Int) (record : ExecutionRecord)
  | recordFailure (id : Int) (result : Json)
  /-- puts a job in unless there is one for its function, and tells whether it did -/
  | insertIfAbsent (job : NewJob)
  deriving Repr

namespace StoreCall

/-- What a call that succeeds answers. -/
def Reply : StoreCall → Type
  | list | listActive _ => List Job
  | recordExecution .. | recordFailure .. => Unit
  | insertIfAbsent _ => Bool

/-- What comes of a call: an answer or an error, or nothing where the call breaks off. -/
abbrev Outcome (c : StoreCall) : Type := Option (Except ServiceError c.Reply)

/-- A store's answer to a call at a time of its clock, and the store afterwards. Numbers have 32
bits: a call that wants one beyond the greatest breaks off, and what it has changed by then stays.
-/
def perform (clock : Instant) (s : JobStore) : (c : StoreCall) → c.Outcome × JobStore
  | list => (some (.ok s.rows), s)
  | listActive limit => (some (.ok (s.listActive limit)), s)
  | recordExecution id record =>
    match s.get? id with
    | none => (some (.error (JobStore.notFound id)), s)
    | some j =>
      if j.executionCount < Text.i32Max then (some (.ok ()), s.put (j.withExecution record clock))
      else (none, s.put (j.withRun record))
  | recordFailure id result =>
    match s.get? id with
    | none => (some (.error (JobStore.notFound id)), s)
    | some j =>
      if j.errorCount < Text.i32Max then (some (.ok ()), s.put (j.withFailure result clock))
      else (none, s)
  | insertIfAbsent job =>
    if s.hasFunction job.functionName then (some (.ok false), s)
    else if s.greatestId < Text.i32Max then (some (.ok true), s.append job clock)
    else (none, s)

end StoreCall

/-- The circumstances of a call: the time of the store's clock, and the calls that fail. A failing
call changes nothing. -/
structure Moment where
  clock : Instant
  fault? : StoreCall → Option ServiceError

def Moment.perform (m : Moment) (s : JobStore) (c : StoreCall) : c.Outcome × JobStore :=
  match m.fault? c with
  | some e => (some (.error e), s)
  | none => c.perform m.clock s

/-! ## Scripts -/

/-- A course of calls, each of which may depend on the answers to those before. It ends with a
result, or breaks off. -/
inductive StoreScript (α : Type)
  | done (a : α)
  | broken
  | call (c : StoreCall) (next : Except ServiceError c.Reply → StoreScript α)

namespace StoreScript

def bind {α β : Type} : StoreScript α → (α → StoreScript β) → StoreScript β
  | done a, f => f a
  | broken, _ => broken
  | call c next, f => call c fun r => (next r).bind f

instance : Monad StoreScript where
  pure := done
  bind := bind

/-- One call, and its answer. -/
def send (c : StoreCall) : StoreScript (Except ServiceError c.Reply) := call c done

/-- A result, or none: then the script breaks off. -/
def ofOption {α : Type} : Option α → StoreScript α
  | some a => done a
  | none => broken

/-- What is left of a script after a call. -/
def resume {α : Type} {c : StoreCall} (next : Except ServiceError c.Reply → StoreScript α) :
    c.Outcome → StoreScript α
  | some r => next r
  | none => broken

/-- One step: the next call of a script, performed. -/
def step {α : Type} (m : Moment) (s : JobStore) : StoreScript α → StoreScript α × JobStore
  | done a => (done a, s)
  | broken => (broken, s)
  | call c next =>
    let (outcome, s) := m.perform s c
    (resume next outcome, s)

/-- A whole script without others in between, its result if it has one, and the store afterwards.
The calls are numbered from `n` on. -/
def run {α : Type} (moments : Nat → Moment) : Nat → JobStore → StoreScript α → Option α × JobStore
  | _, s, done a => (some a, s)
  | _, s, broken => (none, s)
  | n, s, call c next =>
    match (moments n).perform s c with
    | (some r, s) => (next r).run moments (n + 1) s
    | (none, s) => (none, s)

end StoreScript

end Cadence
