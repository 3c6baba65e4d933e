import Cadence.Proofs.Job.Course
import Cadence.Proofs.Job.Interleaving

/-!
# Bookkeeping

Polls and seedings at work on one store, in any order of their calls. However stale the batches of
the polls are, the counters of a row go up by what is told of its job.
-/

namespace Cadence

open StoreScript

/-! ## Counters -/

namespace JobStore

/-- A counter of a job; 0 if there is no row. -/
def count (c : Job → Int) (s : JobStore) (id : Int) : Int := ((s.get? id).map c).getD 0

/-- All counters can go on to the next number. -/
def BelowMax (s : JobStore) : Prop :=
  ∀ j ∈ s.rows, j.executionCount < Text.i32Max ∧ j.errorCount < Text.i32Max

instance (s : JobStore) : Decidable s.BelowMax :=
  inferInstanceAs (Decidable (∀ j ∈ s.rows, _ ∧ _))

variable {c : Job → Int} {s : JobStore}

theorem count_put {i : Int} {j j' : Job} (hrow : s.get? i = some j) (hid : j'.id = i) (id : Int) :
    (s.put j').count c id = s.count c id + if i = id then c j' - c j else 0 := by
  unfold count
  by_cases h : i = id
  · subst h
    rw [get?_put_self hid hrow, hrow, if_pos rfl]
    simp only [Option.map_some, Option.getD_some]
    omega
  · have hne : id ≠ j'.id := by
      rw [hid]
      exact fun heq => h heq.symm
    rw [get?_put_of_ne s hne, if_neg h, Int.add_zero]

theorem count_append {job : NewJob} {clock : Instant} (id : Int)
    (hc : ∀ j, (s.append job clock).get? id = some j → s.get? id = none → c j = 0) :
    (s.append job clock).count c id = s.count c id := by
  unfold count
  cases hrow : s.get? id with
  | some j => rw [get?_append_of_some hrow]
  | none =>
    cases hnew : (s.append job clock).get? id with
    | none => rfl
    | some j => exact hc j hnew hrow

end JobStore

theorem Effect.counts_eq {s t : JobStore} {x : Exchange} (h : Effect s x t) (id : Int) :
    t.count (·.executionCount) id =
        s.count (·.executionCount) id + (if x.writesRun id then 1 else 0) ∧
      t.count (·.errorCount) id =
        s.count (·.errorCount) id + (if x.writesFailure id then 1 else 0) := by
  cases h with
  | refused c e => cases c <;> simp [Exchange.writesRun, Exchange.writesFailure]
  | list | listActive | present | brokenFailure | brokenInsertion =>
    simp [Exchange.writesRun, Exchange.writesFailure]
  | @executed i j record clock hrow =>
    have hid : (j.withExecution record clock).id = i := JobStore.id_of_get? (j := j) hrow
    rw [JobStore.count_put hrow hid, JobStore.count_put hrow hid]
    simp [Exchange.writesRun, Exchange.writesFailure, Job.withExecution, Job.withRun]
  | @brokenRun i j record hrow =>
    have hid : (j.withRun record).id = i := JobStore.id_of_get? (j := j) hrow
    rw [JobStore.count_put hrow hid, JobStore.count_put hrow hid]
    simp [Exchange.writesRun, Exchange.writesFailure, Job.withRun]
  | @failed i j result clock hrow =>
    have hid : (j.withFailure result clock).id = i := JobStore.id_of_get? (j := j) hrow
    rw [JobStore.count_put hrow hid, JobStore.count_put hrow hid]
    simp [Exchange.writesRun, Exchange.writesFailure, Job.withFailure]
  | inserted job clock =>
    -- A new row begins with both counters at zero.
    constructor
    · rw [JobStore.count_append id fun j hj hnone => (JobStore.get?_append_of_none hnone hj).2.1]
      simp [Exchange.writesRun]
    · rw [JobStore.count_append id fun j hj hnone => (JobStore.get?_append_of_none hnone hj).2.2]
      simp [Exchange.writesFailure]

theorem Effect.inserts_of_broken {s t : JobStore} {x : Exchange} (h : Effect s x t)
    (hroom : s.BelowMax) (hnone : x.outcome = none) : x.call.Inserts := by
  cases h with
  | refused => cases hnone
  | list | listActive | executed | failed | present | inserted => cases hnone
  | brokenRun record hrow hfull => exact absurd (hroom _ (JobStore.mem_of_get? hrow)).1 hfull
  | brokenFailure result hrow hfull => exact absurd (hroom _ (JobStore.mem_of_get? hrow)).2 hfull
  | brokenInsertion => exact trivial

namespace SharedStore

/-! ## Counters and the log -/

/-- All counters are below the greatest number in all stores that a run goes through. -/
def BelowMax {α : Type} (f : SharedStore α) (schedule : List (Nat × Moment)) : Prop :=
  ∀ k ≤ schedule.length, (f.run (schedule.take k)).store.BelowMax

instance {α : Type} (f : SharedStore α) (schedule : List (Nat × Moment)) :
    Decidable (f.BelowMax schedule) :=
  inferInstanceAs (Decidable (∀ k ≤ schedule.length, _))

theorem count_run {α : Type} {c : Job → Int} {P : Exchange → Bool} {id : Int}
    (hstep : ∀ {s x t}, Effect s x t → t.count c id = s.count c id + if P x then 1 else 0)
    (f : SharedStore α) (schedule : List (Nat × Moment)) :
    (f.run schedule).store.count c id =
      f.store.count c id + ((f.log schedule).map (·.2)).countP P := by
  induction schedule generalizing f with
  | nil => simp [run, log]
  | cons e rest ih =>
    obtain ⟨i, m⟩ := e
    have hrest := ih (f.step i m)
    unfold run log
    rw [hrest]
    rcases f.step_cases i m with ⟨c, next, -, hexchange, hstore⟩ | ⟨hexchange, hstore⟩
    · have hone := hstep (m.effect_perform f.store c)
      rw [hexchange, hstore]
      simp only [Option.map_some, Option.toList_some, List.singleton_append, List.map_cons,
        List.countP_cons]
      rw [hone]
      split
      · rw [Int.natCast_add]
        omega
      · rw [Nat.add_zero, Int.add_zero]
    · rw [hexchange, hstore]
      simp

theorem inserts_of_broken {α : Type} {f : SharedStore α} {schedule : List (Nat × Moment)}
    (hroom : f.BelowMax schedule) :
    ∀ e ∈ f.log schedule, e.2.outcome = none → e.2.call.Inserts := by
  induction schedule generalizing f with
  | nil => exact fun e he => absurd he List.not_mem_nil
  | cons first rest ih =>
    obtain ⟨i, m⟩ := first
    have hrest := ih (f := f.step i m) fun k hk => hroom (k + 1) (Nat.succ_le_succ hk)
    intro e he
    unfold log at he
    rcases List.mem_append.mp he with he | he
    · rcases f.step_cases i m with ⟨c, next, -, hexchange, -⟩ | ⟨hexchange, -⟩
      · rw [hexchange] at he
        simp only [Option.map_some, Option.toList_some, List.mem_singleton] at he
        rw [he]
        exact (m.effect_perform f.store c).inserts_of_broken (hroom 0 (Nat.zero_le _))
      · rw [hexchange] at he
        cases he
    · exact hrest e he

/-! ## Calls by script -/

variable {P : Exchange → Bool} {log : List (Nat × Exchange)}

theorem countP_own (P : Exchange → Bool) (i : Nat) (log : List (Nat × Exchange)) :
    (own i log).countP P = log.countP fun e => P e.2 && decide (e.1 = i) := by
  unfold own
  rw [List.countP_map, List.countP_filter]
  rfl

theorem countP_from (P : Exchange → Bool) (k : Nat) (log : List (Nat × Exchange)) :
    (log.countP fun e => P e.2 && decide (k ≤ e.1)) =
      (own k log).countP P + log.countP fun e => P e.2 && decide (k + 1 ≤ e.1) := by
  rw [countP_own]
  induction log with
  | nil => rfl
  | cons e rest ih =>
    simp only [List.countP_cons, ih]
    cases P e.2 with
    | false => simp
    | true =>
      simp only [Bool.true_and, decide_eq_true_eq]
      rcases Nat.lt_trichotomy e.1 k with h | h | h
      · rw [if_neg (Nat.not_le.mpr h), if_neg (Nat.ne_of_lt h), if_neg (by omega)]
        omega
      · rw [if_pos (Nat.le_of_eq h.symm), if_pos h, if_neg (by omega)]
        omega
      · rw [if_pos (Nat.le_of_lt h), if_neg (Nat.ne_of_gt h), if_pos (Nat.succ_le_of_lt h)]
        omega

theorem countP_flatMap_zipIdx_from {β : Type} {answers : List (Option Answer)}
    (told : Option Answer × Nat → List β) (q : β → Bool) (k : Nat)
    (hlog : ∀ e ∈ log, e.1 < k + answers.length)
    (htold : ∀ a i, answers[i]? = some a →
      (own (k + i) log).countP P = (told (a, k + i)).countP q) :
    ((answers.zipIdx k).flatMap told).countP q =
      log.countP fun e => P e.2 && decide (k ≤ e.1) := by
  induction answers generalizing k with
  | nil =>
    rw [eq_comm, List.zipIdx_nil, List.flatMap_nil, List.countP_nil, List.countP_eq_zero]
    intro e he
    have hlt : ¬ k ≤ e.1 := Nat.not_le.mpr (hlog e he)
    simp [hlt]
  | cons a answers ih =>
    have hrest := ih (k + 1)
      (fun e he => by
        have := hlog e he
        rw [List.length_cons] at this
        omega)
      (fun a i ha => by
        have := htold a (i + 1) ha
        rwa [show k + (i + 1) = k + 1 + i by omega] at this)
    have hfirst : (own k log).countP P = (told (a, k)).countP q := htold a 0 rfl
    rw [List.zipIdx_cons, List.flatMap_cons, List.countP_append, hrest, countP_from P k, hfirst]

theorem countP_flatMap_zipIdx {β : Type} {answers : List (Option Answer)}
    (told : Option Answer × Nat → List β) (q : β → Bool) (hlog : ∀ e ∈ log, e.1 < answers.length)
    (htold : ∀ a i, answers[i]? = some a → (own i log).countP P = (told (a, i)).countP q) :
    (answers.zipIdx.flatMap told).countP q = (log.map (·.2)).countP P := by
  have hcount : (answers.zipIdx.flatMap told).countP q =
      log.countP fun e => P e.2 && decide (0 ≤ e.1) := by
    apply countP_flatMap_zipIdx_from told q 0
    · intro e he
      rw [Nat.zero_add]
      exact hlog e he
    · intro a i ha
      rw [Nat.zero_add]
      exact htold a i ha
  rw [hcount, List.countP_map]
  apply List.countP_congr
  intro e he
  simp

end SharedStore

/-- Errands at work on one store, in any order of their calls, until all have ended. Polls come to
their answers; a seeding may break off for want of an id. The executions of a job go up by those
that the reports tell, and its errors by the failures that they tell and whose calls to write them
down succeeded; each script makes one such call for each failure it tells. -/
theorem bookkeeping_matches_reports (s : JobStore) (errands : List Errand)
    (schedule : List (Nat × Moment)) :
    let f : SharedStore Answer := ⟨s, errands.map Errand.script⟩
    let t := (f.run schedule).store
    let answers := (f.run schedule).answers?
    let calls (i : Nat) := SharedStore.own i (f.log schedule)
    (f.run schedule).HasEnded → f.BelowMax schedule →
    (∀ i : Nat, answers[i]? = some none →
      ∃ definitions, errands[i]? = some (Errand.seed definitions)) ∧
    (∀ (i : Nat) a, answers[i]? = some a →
      ((calls i).filterMap Exchange.failure?).map (·.1) =
        ((Answer.results a).filter (·.status = .failed)).map (·.jobId)) ∧
    ∀ id,
      t.count (·.executionCount) id - s.count (·.executionCount) id =
        (answers.flatMap Answer.results).countP (·.tellsRun id) ∧
      t.count (·.errorCount) id - s.count (·.errorCount) id =
        (answers.zipIdx.flatMap fun (a, i) => Answer.failures a (calls i)).countP
          fun (o, _, recorded) => o.jobId = id ∧ recorded := by
  intro f t answers calls hended hroom
  have hlength : answers.length = errands.length := by
    simp only [answers, SharedStore.answers?, List.length_map, f.length_scripts_run schedule]
    simp [f]
  have hscript {i : Nat} {a : Option Answer} (ha : answers[i]? = some a) :
      ∃ e, errands[i]? = some e ∧ f.scripts[i]? = some e.script := by
    have hi : i < errands.length := hlength ▸ (List.getElem?_eq_some_iff.mp ha).1
    exact ⟨errands[i], List.getElem?_eq_getElem hi, by simp [f, hi]⟩
  have hbroken {i : Nat} {e : Errand} (hscript : f.scripts[i]? = some e.script)
      (ha : answers[i]? = some none) :
      (∃ definitions, e = .seed definitions) ∧ Answer.Accounts none (calls i) := by
    apply Errand.accounts_of_broken (SharedStore.leads_of_broken hscript hended ha)
    intro x hx
    exact SharedStore.inserts_of_broken hroom (i, x) (SharedStore.mem_own.mp hx)
  -- What a script tells agrees with its own calls, and the counters with those of all.
  have haccounts : ∀ (i : Nat) a, answers[i]? = some a → Answer.Accounts a (calls i) := by
    intro i a ha
    obtain ⟨e, -, hscript⟩ := hscript ha
    cases a with
    | some a => exact Errand.accounts (SharedStore.leads_of_answers? hscript ha)
    | none => exact (hbroken hscript ha).2
  have hlog : ∀ e ∈ f.log schedule, e.1 < answers.length := by
    rintro ⟨i, x⟩ he
    have := SharedStore.lt_of_mem_log he
    rw [hlength]
    simpa [f] using this
  refine ⟨fun i ha => ?_, fun i a ha => (haccounts i a ha).failures_ids, fun id => ⟨?_, ?_⟩⟩
  · obtain ⟨e, he, hscript⟩ := hscript ha
    obtain ⟨definitions, rfl⟩ := (hbroken hscript ha).1
    exact ⟨definitions, he⟩
  · have hcount : t.count (·.executionCount) id = s.count (·.executionCount) id +
        ((f.log schedule).map (·.2)).countP (·.writesRun id) :=
      SharedStore.count_run (fun heffect => (heffect.counts_eq id).1) f schedule
    have htold := SharedStore.countP_flatMap_zipIdx (fun e => Answer.results e.1) (·.tellsRun id)
      hlog fun a i ha => (haccounts i a ha).executions id
    have hall :
        answers.zipIdx.flatMap (fun e => Answer.results e.1) = answers.flatMap Answer.results := by
      rw [← List.flatMap_map, List.zipIdx_map_fst]
    rw [← hall, htold]
    omega
  · have hcount : t.count (·.errorCount) id = s.count (·.errorCount) id +
        ((f.log schedule).map (·.2)).countP (·.writesFailure id) :=
      SharedStore.count_run (fun heffect => (heffect.counts_eq id).2) f schedule
    have htold := SharedStore.countP_flatMap_zipIdx (fun e => Answer.failures e.1 (calls e.2)) _
      hlog fun a i ha => (haccounts i a ha).failures id
    rw [htold]
    omega

/-- Two polls with one batch and a seeding; the second poll cannot write its run down. -/
theorem bookkeeping_matches_three_reports :
    let j : Job := { (default : Job) with id := 1, isActive := true, scheduleExpression := "daily" }
    let s : JobStore := ⟨[j]⟩
    let free : Moment := ⟨.epoch, fun _ => none⟩
    let busy : Moment :=
      ⟨.epoch, fun c => match c with
        | .recordExecution .. => some (.internal ["busy"])
        | _ => none⟩
    let day₁ : Instant := ⟨1, 0, 0, by decide, by decide, by decide, by decide⟩
    let o : JobOutcome := ⟨1, "", .executed, some day₁, none⟩
    let o' : JobOutcome :=
      ⟨1, "", .failed, none, some (JobError.store (.internal ["busy"])).describe⟩
    let errands : List Errand :=
      [.poll 9 .epoch 0, .poll 9 .epoch 0, .seed (JobDefinition.initial.take 1)]
    let schedule := [(0, free), (1, free), (0, free), (2, free), (1, busy), (1, busy)]
    let f : SharedStore Answer := ⟨s, errands.map Errand.script⟩
    let t := (f.run schedule).store
    (f.run schedule).HasEnded ∧ f.BelowMax schedule ∧
      (f.run schedule).answers? =
        [some (.polled (.ok ⟨.ofOutcomes [o], [o], 0⟩)),
          some (.polled (.ok ⟨.ofOutcomes [o'], [o'], 0⟩)),
          some (.seeded (.ok ⟨["processActivityReminders"], []⟩))] ∧
      t.count (·.executionCount) 1 - s.count (·.executionCount) 1 = 1 ∧
      t.count (·.errorCount) 1 - s.count (·.errorCount) 1 = 1 := by
  intro j s free busy day₁ o o' errands schedule f t
  have hended : (f.run schedule).HasEnded := by decide
  have hroom : f.BelowMax schedule := by decide
  obtain ⟨-, -, hcounts⟩ := bookkeeping_matches_reports s errands schedule hended hroom
  obtain ⟨hruns, herrors⟩ := hcounts 1
  refine ⟨hended, hroom, by decide, hruns.trans ?_, herrors.trans ?_⟩
  · decide
  · decide

end Cadence
