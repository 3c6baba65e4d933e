import Cadence.Proofs.Job.Errand
import Cadence.Proofs.Job.Ids

/-!
# Sessions

Errands on one store, one after the other. Once a job has run, it rests until its next run, whatever
the clock of the polls says afterwards; so its runs follow each other in time.
-/

namespace Cadence

open StoreScript

/-! ## Polls by job -/

namespace Poll

variable {moments : Nat → Moment} {now : Instant} {n k k' : Nat} {limit : Int} {durationMs : Nat}
  {s s' : JobStore} {r : Option (Except ServiceError PollReport)} {j row : Job} {o : JobOutcome}
  {jobs rows : List Job}

/-- The row keeps its next run, or was due and has one after the poll. -/
def Advances (now : Instant) (j row : Job) : Prop :=
  row.nextExecution = j.nextExecution ∨
    j.isDue now = true ∧ ∃ next, row.nextExecution = some next ∧ now < next

theorem Turn.advances (h : Turn moments now j k o row k') : Advances now j row := by
  by_cases ho : o.status = .executed
  · obtain ⟨hdue, next, -, hnext, -, hrow⟩ := h.of_executed ho
    exact Or.inr ⟨hdue, next, hrow, lt_of_nextExecution hnext⟩
  · exact Or.inl (h.of_not_executed ho).2

theorem Breaks.advances (h : Breaks moments now j k row) : Advances now j row := by
  cases h with
  | run hdue hnext => exact Or.inr ⟨hdue, _, rfl, lt_of_nextExecution hnext⟩
  | failure => exact Or.inl rfl

theorem BrokenTurns.advances_of_mem (h : BrokenTurns moments now k jobs rows) (hrow : row ∈ rows) :
    ∃ j ∈ jobs, row.id = j.id ∧ Advances now j row := by
  induction h with
  | here breaks =>
    rw [List.mem_singleton] at hrow
    subst hrow
    exact ⟨_, List.mem_cons_self, breaks.id_eq, breaks.advances⟩
  | later turn _ ih =>
    rcases List.mem_cons.mp hrow with rfl | hrow
    · exact ⟨_, List.mem_cons_self, turn.id_eq, turn.advances⟩
    · obtain ⟨j, hj, hadvances⟩ := ih hrow
      exact ⟨j, List.mem_cons_of_mem _ hj, hadvances⟩

theorem exists_advanced_rows (hids : s.DistinctIds)
    (hrun : (poll limit now durationMs).run moments n s = (r, s')) :
    ∃ rows, s' = s.putAll rows ∧ (rows.map (·.id)).Nodup ∧
      ∀ row ∈ rows, ∃ j, s.get? row.id = some j ∧ Advances now j row := by
  have hbatch {row : Job} (h : ∃ j ∈ s.listActive limit, row.id = j.id ∧ Advances now j row) :
      ∃ j, s.get? row.id = some j ∧ Advances now j row := by
    obtain ⟨j, hj, hid, hadvances⟩ := h
    refine ⟨j, ?_, hadvances⟩
    rw [hid]
    exact JobStore.get?_of_mem hids (JobStore.mem_of_mem_listActive hj)
  rcases poll_cases hids hrun with
    ⟨e, -, rfl⟩ | ⟨os, rows, k', hturns, hnodup, -, rfl⟩ | ⟨rows, hbroken, hnodup, -, rfl⟩
  · exact ⟨[], rfl, .nil, fun row hrow => absurd hrow List.not_mem_nil⟩
  · refine ⟨rows, rfl, hnodup, fun row hrow => hbatch ?_⟩
    obtain ⟨j, hj, o, -, k, m, hturn⟩ := hturns.turn_of_mem_rows hrow
    exact ⟨j, hj, hturn.id_eq, hturn.advances⟩
  · exact ⟨rows, rfl, hnodup, fun row hrow => hbatch (hbroken.advances_of_mem hrow)⟩

theorem turn_of_result {report : PollReport} (hids : s.DistinctIds)
    (hrun : (poll limit now durationMs).run moments n s = (some (.ok report), s'))
    (ho : o ∈ report.results) :
    ∃ j row k k', s.get? o.jobId = some j ∧ s'.get? o.jobId = some row ∧
      Turn moments now j k o row k' := by
  rcases poll_cases hids hrun with
    ⟨e, he, -⟩ | ⟨os, rows, k', hturns, hnodup, hok, rfl⟩ | ⟨rows, -, -, hnone, -⟩
  · cases he
  · cases hok
    obtain ⟨j, hj, row, hrow, k, m, hturn⟩ := hturns.turn_of_mem ho
    have hget : s.get? j.id = some j :=
      JobStore.get?_of_mem hids (JobStore.mem_of_mem_listActive hj)
    refine ⟨j, row, k, m, ?_, ?_, hturn⟩
    · rw [hturn.jobId_eq]
      exact hget
    · rw [hturn.jobId_eq, ← hturn.id_eq]
      apply JobStore.get?_putAll_of_mem hnodup hrow
      rw [hturn.id_eq]
      exact JobStore.mem_ids_iff.mpr ⟨j, hget⟩
  · cases hnone

theorem nodup_results {report : PollReport} (hids : s.DistinctIds)
    (hrun : (poll limit now durationMs).run moments n s = (some (.ok report), s')) :
    (report.results.map (·.jobId)).Nodup := by
  rcases poll_cases hids hrun with
    ⟨e, he, -⟩ | ⟨os, rows, k', hturns, -, hok, -⟩ | ⟨rows, -, -, hnone, -⟩
  · cases he
  · cases hok
    exact hturns.jobIds_eq ▸ JobStore.nodup_listActive hids limit
  · cases hnone

theorem Advances.next_le (h : Advances now j row) {next : Instant}
    (hj : j.nextExecution = some next) :
    ∃ next', row.nextExecution = some next' ∧ next ≤ next' := by
  rcases h with hsame | ⟨hdue, next', hnext', hlt⟩
  · exact ⟨next, hsame.trans hj, Instant.le_refl next⟩
  · exact ⟨next', hnext', Instant.le_trans (Job.le_of_isDue hdue hj) (Instant.le_of_lt hlt)⟩

theorem rests (hids : s.DistinctIds)
    (hrun : (poll limit now durationMs).run moments n s = (r, s')) {id : Int} {u : Instant}
    (h : s.RestsUntil id u) : s'.RestsUntil id u := by
  obtain ⟨rows, rfl, hnodup, hadvanced⟩ := exists_advanced_rows hids hrun
  obtain ⟨j, next, hj, hnext, hle⟩ := h
  by_cases hid : id ∈ rows.map (·.id)
  · obtain ⟨row, hrow, rfl⟩ := List.mem_map.mp hid
    obtain ⟨i, hi, hadvances⟩ := hadvanced row hrow
    obtain rfl : i = j := Option.some.inj (hi.symm.trans hj)
    obtain ⟨next', hnext', hle'⟩ := hadvances.next_le hnext
    exact ⟨row, next',
      JobStore.get?_putAll_of_mem hnodup hrow (JobStore.mem_ids_iff.mpr ⟨i, hi⟩), hnext',
      Instant.le_trans hle hle'⟩
  · exact ⟨j, next, (JobStore.get?_putAll_of_not_mem s hid).trans hj, hnext, hle⟩

end Poll

/-! ## One errand -/

theorem seed_rests (definitions : List JobDefinition) (moments : Nat → Moment) (n : Nat)
    {s : JobStore} {id : Int} {u : Instant} (h : s.RestsUntil id u) :
    ((seed definitions).run moments n s).2.RestsUntil id u := by
  refine (seed_only definitions).keeps_run (I := fun t => t.RestsUntil id u) ?_ moments n h
  intro s x t heffect hinserts hrests
  exact heffect.restsUntil (hinserts.not_recordExecution id).2 hrests

namespace Errand

/-- The runs of a job that come of a piece of work: the instants, and what is told of them. Work
that breaks off tells nothing. -/
def runs (id : Int) : Errand → Option Answer → List (Instant × JobOutcome)
  | .poll _ now _, some (.polled (.ok report)) =>
    (report.results.filter (·.tellsRun id)).map (now, ·)
  | _, _ => []

variable {moments : Nat → Moment} {n : Nat} {s s' : JobStore} {answer : Option Answer} {id : Int}

theorem run_poll {limit : Int} {now : Instant} {durationMs : Nat} :
    (Errand.poll limit now durationMs).script.run moments n s =
      (((Cadence.poll limit now durationMs).run moments n s).1.map .polled,
        ((Cadence.poll limit now durationMs).run moments n s).2) :=
  run_bind_done _ _ _ _ _

theorem run_seed {definitions : List JobDefinition} :
    (Errand.seed definitions).script.run moments n s =
      (((Cadence.seed definitions).run moments n s).1.map .seeded,
        ((Cadence.seed definitions).run moments n s).2) :=
  run_bind_done _ _ _ _ _

theorem rests (hids : s.DistinctIds) (e : Errand) {u : Instant} (h : s.RestsUntil id u) :
    (e.script.run moments n s).2.RestsUntil id u := by
  cases e with
  | poll limit now durationMs =>
    rw [run_poll]
    exact Poll.rests hids rfl h
  | seed definitions =>
    rw [run_seed]
    exact seed_rests definitions moments n h

theorem distinctIds_run (hids : s.DistinctIds) (e : Errand) :
    (e.script.run moments n s).2.DistinctIds :=
  (e.only_forward.mono fun _ _ => trivial).keeps_run (P := fun _ => True)
    (fun heffect _ h => h.effect heffect) moments n hids

theorem exists_of_mem_runs {e : Errand} {r : Instant × JobOutcome} (h : r ∈ e.runs id answer) :
    ∃ limit now durationMs report, e = .poll limit now durationMs ∧
      answer = some (.polled (.ok report)) ∧ r.1 = now ∧ r.2 ∈ report.results ∧ r.2.jobId = id ∧
      r.2.status = .executed := by
  unfold runs at h
  split at h
  · obtain ⟨o, ho, rfl⟩ := List.mem_map.mp h
    obtain ⟨hmem, heq⟩ := List.mem_filter.mp ho
    obtain ⟨hid, hstatus⟩ := of_decide_eq_true heq
    exact ⟨_, _, _, _, rfl, rfl, rfl, hmem, hid, hstatus⟩
  · cases h

theorem run_of_polled {limit : Int} {now : Instant} {durationMs : Nat} {report : PollReport}
    (h : (Errand.poll limit now durationMs).script.run moments n s =
      (some (.polled (.ok report)), s')) :
    (Cadence.poll limit now durationMs).run moments n s = (some (.ok report), s') := by
  rw [run_poll, Prod.mk.injEq, Option.map_eq_some_iff] at h
  obtain ⟨⟨r, hr, hreport⟩, hstore⟩ := h
  cases hreport
  exact Prod.ext hr hstore

/-- A run moves the job past its instant, and comes only when the job rests no more. -/
theorem of_mem_runs (hids : s.DistinctIds) {e : Errand}
    (hrun : e.script.run moments n s = (answer, s')) {r : Instant × JobOutcome}
    (h : r ∈ e.runs id answer) :
    ∃ j next, s'.get? id = some j ∧ j.lastExecuted = some r.1 ∧ j.nextExecution = some next ∧
      r.2.nextRun = some next ∧ r.1 < next ∧ ∀ u, s.RestsUntil id u → u ≤ r.1 := by
  obtain ⟨limit, now, durationMs, report, rfl, rfl, hnow, hmem, rfl, hstatus⟩ :=
    exists_of_mem_runs h
  obtain ⟨j, row, k, k', hj, hrow, hturn⟩ := Poll.turn_of_result hids (run_of_polled hrun) hmem
  obtain ⟨hdue, next, hnext, hcomputed, hlast, hrownext⟩ := hturn.of_executed hstatus
  rw [hnow]
  exact ⟨row, next, hrow, hlast, hrownext, hnext, lt_of_nextExecution hcomputed,
    fun u hrests => hrests.le_of_isDue hj hdue⟩

theorem length_runs_le_one (hids : s.DistinctIds) (e : Errand)
    (hrun : e.script.run moments n s = (answer, s')) : (e.runs id answer).length ≤ 1 := by
  unfold runs
  split
  · rename_i limit now durationMs report
    have hnodup := Poll.nodup_results hids (run_of_polled hrun)
    rw [List.length_map, ← List.countP_eq_length_filter]
    exact Poll.countP_tellsRun_le_one hnodup id
  · exact Nat.zero_le 1

end Errand

/-! ## Errands one after the other -/

/-- Errands, each with the circumstances of its calls. -/
abbrev Session := List (Errand × (Nat → Moment))

namespace Session

/-- The store that a session leaves. -/
def after (s : JobStore) : Session → JobStore
  | [] => s
  | (e, moments) :: rest => after (e.script.run moments 0 s).2 rest

/-- The stores that a session goes through. -/
def stores (s : JobStore) : Session → List JobStore
  | [] => [s]
  | (e, moments) :: rest =>
    e.script.stores moments 0 s ++ stores (e.script.run moments 0 s).2 rest

/-- The runs of a job, in the order of the polls that tell them. -/
def runs (id : Int) (s : JobStore) : Session → List (Instant × JobOutcome)
  | [] => []
  | (e, moments) :: rest =>
    e.runs id (e.script.run moments 0 s).1 ++ runs id (e.script.run moments 0 s).2 rest

variable {s : JobStore} {id : Int}

theorem stores_append_subset (s : JobStore) (first second : Session) :
    second.stores (first.after s) ⊆ (first ++ second).stores s := by
  induction first generalizing s with
  | nil => exact fun _ h => h
  | cons e rest ih => exact fun t ht => List.mem_append_right _ (ih _ ht)

theorem keeps {P : StoreCall → Prop} {I : JobStore → Prop}
    (hstep : ∀ {s x t}, Effect s x t → P x.call → I s → I t) (honly : ∀ e : Errand, e.script.Only P)
    (hs : I s) (errands : Session) : ∀ t ∈ errands.stores s, I t := by
  induction errands generalizing s with
  | nil =>
    intro t ht
    rw [List.mem_singleton.mp ht]
    exact hs
  | cons e rest ih =>
    obtain ⟨e, moments⟩ := e
    intro t ht
    rcases List.mem_append.mp ht with ht | ht
    · exact (honly e).keeps hstep moments 0 hs t ht
    · exact ih ((honly e).keeps_run hstep moments 0 hs) t ht

theorem head_mem_stores (s : JobStore) (errands : Session) : s ∈ errands.stores s := by
  cases errands with
  | nil => exact List.mem_singleton_self s
  | cons e rest => exact List.mem_append_left _ (e.1.script.head_mem_stores e.2 0 s)

theorem distinctIds (hids : s.DistinctIds) (errands : Session) :
    ∀ t ∈ errands.stores s, t.DistinctIds :=
  keeps (P := fun _ => True) (fun heffect _ h => h.effect heffect)
    (fun e => e.only_forward.mono fun _ _ => trivial) hids errands

/-! ## Runs -/

theorem pairwise_of_length_le_one {α : Type} {R : α → α → Prop} {l : List α} (h : l.length ≤ 1) :
    l.Pairwise R := by
  cases l with
  | nil => exact .nil
  | cons a rest =>
    have hrest : rest = [] := by
      rw [List.length_cons] at h
      exact List.length_eq_zero_iff.mp (by omega)
    rw [hrest]
    exact List.pairwise_singleton R a

theorem le_of_mem_runs {u : Instant} (errands : Session) (hids : s.DistinctIds)
    (hrests : s.RestsUntil id u) : ∀ r ∈ errands.runs id s, u ≤ r.1 := by
  induction errands generalizing s with
  | nil =>
    intro r hr
    cases hr
  | cons e rest ih =>
    obtain ⟨e, moments⟩ := e
    intro r hr
    rcases List.mem_append.mp hr with hr | hr
    · obtain ⟨j, next, -, -, -, -, -, hlater⟩ := Errand.of_mem_runs hids rfl hr
      exact hlater u hrests
    · exact ih (Errand.distinctIds_run hids e) (Errand.rests hids e hrests) r hr

theorem pairwise_runs (errands : Session) (hids : s.DistinctIds) (id : Int) :
    (errands.runs id s).Pairwise fun r r' =>
      ∃ next, r.2.nextRun = some next ∧ r.1 < next ∧ next ≤ r'.1 := by
  induction errands generalizing s with
  | nil => exact List.Pairwise.nil
  | cons e rest ih =>
    obtain ⟨e, moments⟩ := e
    have hrest : (e.script.run moments 0 s).2.DistinctIds := Errand.distinctIds_run hids e
    refine List.pairwise_append.mpr ⟨?_, ih hrest, fun r hr r' hr' => ?_⟩
    · -- There is no more than one run of an errand.
      exact pairwise_of_length_le_one (Errand.length_runs_le_one hids e rfl)
    · -- After the run the job rests until the next one, whatever errands follow.
      obtain ⟨j, next, hj, -, hnext, htold, hlt, -⟩ := Errand.of_mem_runs hids rfl hr
      have hrests : JobStore.RestsUntil _ id next := ⟨j, next, hj, hnext, Instant.le_refl next⟩
      exact ⟨next, htold, hlt, le_of_mem_runs rest hrest hrests r' hr'⟩

end Session

/-- In all stores of a session the ids are distinct, and a row that has been run has a later next
run. The runs of each job go forward: the next run that is told of one is later than it, and not
later than any run after it. A poll runs a job no more than once, and leaves it with that next
run. -/
theorem session_goes_forward {s : JobStore} (hids : s.DistinctIds) (hforward : s.Forward)
    (errands : Session) :
    (∀ t ∈ errands.stores s, t.DistinctIds ∧ t.Forward) ∧
    ∀ id,
      ((errands.runs id s).Pairwise fun r r' =>
        ∃ next, r.2.nextRun = some next ∧ r.1 < next ∧ next ≤ r'.1) ∧
      ∀ (first : Session) e moments second, errands = first ++ (e, moments) :: second →
        let (answer, t) := e.script.run moments 0 (first.after s)
        (e.runs id answer).length ≤ 1 ∧
          ∀ r ∈ e.runs id answer, ∃ j next, t.get? id = some j ∧ j.lastExecuted = some r.1 ∧
            j.nextExecution = some next ∧ r.2.nextRun = some next ∧ r.1 < next := by
  have hdistinct := Session.distinctIds hids errands
  have hkept := Session.keeps Effect.forward Errand.only_forward hforward errands
  refine ⟨fun t ht => ⟨hdistinct t ht, hkept t ht⟩, fun id => ?_⟩
  refine ⟨Session.pairwise_runs errands hids id, ?_⟩
  rintro first e moments second rfl
  have hbefore : (first.after s).DistinctIds :=
    hdistinct _ (Session.stores_append_subset s first _ (Session.head_mem_stores _ _))
  refine ⟨Errand.length_runs_le_one hbefore e rfl, fun r hr => ?_⟩
  obtain ⟨j, next, hj, hlast, hnext, htold, hlt, -⟩ := Errand.of_mem_runs hbefore rfl hr
  exact ⟨j, next, hj, hlast, hnext, htold, hlt⟩

theorem session_of_seeding_and_polls_goes_forward :
    let j : Job := { (default : Job) with id := 1, isActive := true, scheduleExpression := "daily" }
    let s : JobStore := ⟨[j]⟩
    let moments (_ : Nat) : Moment := ⟨.epoch, fun _ => none⟩
    let errands : Session :=
      [(.seed JobDefinition.initial, moments), (.poll 9 .epoch 0, moments),
        (.poll 9 .epoch 0, moments)]
    s.DistinctIds ∧ s.Forward ∧ (errands.runs 1 s).length = 1 ∧
      (∀ t ∈ errands.stores s, t.DistinctIds ∧ t.Forward) ∧
      (errands.runs 1 s).Pairwise fun r r' =>
        ∃ next, r.2.nextRun = some next ∧ r.1 < next ∧ next ≤ r'.1 := by
  intro j s moments errands
  have hids : s.DistinctIds := by decide
  have hforward : s.Forward := by
    intro j hj last hlast
    rw [List.mem_singleton.mp hj] at hlast
    cases hlast
  obtain ⟨hkept, hruns⟩ := session_goes_forward hids hforward errands
  exact ⟨hids, hforward, by decide, hkept, (hruns 1).1⟩

end Cadence
