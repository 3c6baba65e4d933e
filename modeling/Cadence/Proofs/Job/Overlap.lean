import Cadence.Proofs.Job.Course
import Cadence.Proofs.Job.Interleaving

/-!
# Polls that overlap

A poll decides by the rows it has fetched, and writes later. Two polls can run one job before its
next run comes, but only if each of them has fetched its batch before the other wrote the run down.
-/

namespace Cadence

open StoreScript

namespace SharedStore

variable {i p q : Nat} {x y : Exchange} {log : List (Nat × Exchange)}

/-! ## Places in a log -/

/-- Script `i` fetches a batch in the call number `p`. -/
def FetchesAt (log : List (Nat × Exchange)) (i p : Nat) : Prop :=
  ∃ limit jobs, log[p]? = some (i, ⟨.listActive limit, some (.ok jobs)⟩)

/-- Script `i` writes down a run of a job in the call number `q`. -/
def WritesAt (log : List (Nat × Exchange)) (i : Nat) (id : Int) (now next : Instant) (q : Nat) :
    Prop :=
  ∃ result, log[q]? = some (i, ⟨.recordExecution id ⟨now, next, result⟩, some (.ok ())⟩)

theorem mem_own_of_getElem? (h : log[p]? = some (i, x)) : x ∈ own i log :=
  mem_own.mpr (List.mem_of_getElem? h)

theorem eq_take_append {a : Nat × Exchange} (h : log[p]? = some a) :
    log = log.take p ++ a :: log.drop (p + 1) := by
  obtain ⟨hp, hget⟩ := List.getElem?_eq_some_iff.mp h
  rw [← hget, List.getElem_cons_drop, List.take_append_drop]

theorem exists_place_of_mem {e : Nat × Exchange} (h : e ∈ (log.take p).drop (q + 1)) :
    ∃ m, q < m ∧ m < p ∧ log[m]? = some e := by
  obtain ⟨k, hk⟩ := List.mem_iff_getElem?.mp h
  rw [List.getElem?_drop, List.getElem?_take] at hk
  split at hk
  · exact ⟨q + 1 + k, by omega, by omega, hk⟩
  · cases hk

theorem two_le_countP_own {P : Exchange → Bool} (hlt : q < p) (hq : log[q]? = some (i, y))
    (hy : P y = true) (hp : log[p]? = some (i, x)) (hx : P x = true) :
    2 ≤ (own i log).countP P := by
  have hfirst : 0 < (own i (log.take p)).countP P :=
    List.countP_pos_iff.mpr ⟨y, mem_own_of_getElem? ((List.getElem?_take_of_lt hlt).trans hq), hy⟩
  rw [eq_take_append hp, own_append, own_cons, if_pos rfl, List.countP_append, List.countP_cons,
    if_pos hx]
  omega

theorem place_unique {P : Exchange → Bool} (hone : (own i log).countP P ≤ 1)
    (hp : log[p]? = some (i, x)) (hx : P x = true) (hq : log[q]? = some (i, y)) (hy : P y = true) :
    p = q := by
  rcases Nat.lt_trichotomy p q with hlt | heq | hlt
  · have := two_le_countP_own hlt hp hx hq hy
    omega
  · exact heq
  · have := two_le_countP_own hlt hq hy hp hx
    omega

theorem exists_first_place {xs : List Exchange} (h : own i log = x :: xs) :
    ∃ p, log[p]? = some (i, x) ∧ ∀ (q : Nat) y, log[q]? = some (i, y) → p ≤ q := by
  induction log with
  | nil => cases h
  | cons e rest ih =>
    obtain ⟨k, z⟩ := e
    rw [own_cons] at h
    by_cases hk : k = i
    · rw [if_pos hk, List.cons.injEq] at h
      refine ⟨0, ?_, fun q y _ => Nat.zero_le q⟩
      rw [List.getElem?_cons_zero, hk, h.1]
    · rw [if_neg hk] at h
      obtain ⟨p, hp, hfirst⟩ := ih h
      refine ⟨p + 1, hp, fun q y hq => ?_⟩
      cases q with
      | zero =>
        rw [List.getElem?_cons_zero, Option.some.injEq, Prod.mk.injEq] at hq
        exact absurd hq.1 hk
      | succ q => exact Nat.succ_le_succ (hfirst q y hq)

end SharedStore

namespace Poll

open SharedStore

variable {log : List (Nat × Exchange)} {s t : JobStore} {i k : Nat} {id : Int}
  {now now' next next' : Instant} {p q p' q' : Nat}

/-- A poll that runs a job: the one place where it fetches its batch, with the job in it and due,
and the one place where it writes the run down. -/
structure RunsBetween (log : List (Nat × Exchange)) (i : Nat) (id : Int) (now next : Instant)
    (p q : Nat) : Prop where
  fetches_iff : ∀ m, FetchesAt log i m ↔ m = p
  writes_iff : ∀ m instant u, WritesAt log i id instant u m ↔ m = q ∧ instant = now ∧ u = next
  first : ∀ (m : Nat) x, log[m]? = some (i, x) → p ≤ m
  due : ∃ (limit : Int) (jobs : List Job),
    log[p]? = some (i, ⟨.listActive limit, some (.ok jobs)⟩) ∧
      ∃ j ∈ jobs, j.id = id ∧ j.isDue now = true
  lt : now < next

/-- Nothing is put in, and no call breaks off. -/
def Undisturbed (log : List (Nat × Exchange)) : Prop :=
  ∀ e ∈ log, ¬ e.2.call.Inserts ∧ e.2.outcome ≠ none

/-! ## What a batch knows -/

theorem ids_eq_of_history {xs : List Exchange} (h : History s xs t)
    (hxs : ∀ x ∈ xs, ¬ x.call.Inserts) : t.ids = s.ids := by
  refine h.keeps (P := fun x => ¬ x.call.Inserts) (I := fun u => u.ids = s.ids) ?_ hxs rfl
  intro u x v heffect hx hu
  cases heffect with
  | refused | list | listActive | present | brokenFailure | brokenInsertion => exact hu
  | executed | brokenRun | failed =>
    rw [JobStore.ids_put]
    exact hu
  | inserted => exact absurd trivial hx

theorem batch_of_fetches (hhistory : History s (log.map (·.2)) t) (hlog : Undisturbed log)
    {limit : Int} {jobs : List Job}
    (hp : log[p]? = some (i, ⟨.listActive limit, some (.ok jobs)⟩)) :
    ∃ u : JobStore, History s ((log.take p).map (·.2)) u ∧ u.ids = s.ids ∧
      jobs = u.listActive limit := by
  rw [eq_take_append hp, List.map_append, List.map_cons, History.append_iff] at hhistory
  obtain ⟨u, hfirst, hrest⟩ := hhistory
  obtain ⟨v, hfetch, -⟩ := History.cons_iff.mp hrest
  have hids : u.ids = s.ids := by
    apply ids_eq_of_history hfirst
    intro x hx
    obtain ⟨e, he, rfl⟩ := List.mem_map.mp hx
    exact (hlog e (List.mem_of_mem_take he)).1
  exact ⟨u, hfirst, hids, hfetch.of_fetches.1⟩

/-- A batch that is fetched after a run was written down knows of it, if nobody else is at work. -/
theorem le_of_fetches_after (hids : s.DistinctIds) (hhistory : History s (log.map (·.2)) t)
    (hlog : Undisturbed log) (hall : ∀ e ∈ log, e.1 = i ∨ e.1 = k)
    (h : RunsBetween log i id now next p q) (h' : RunsBetween log k id now' next' p' q')
    (hafter : q < p') : next ≤ now' := by
  obtain ⟨result, hq⟩ := (h.writes_iff q now next).mpr ⟨rfl, rfl, rfl⟩
  obtain ⟨limit, jobs, hp', j, hj, rfl, hdue⟩ := h'.due
  obtain ⟨u, hhistory, huids, rfl⟩ := batch_of_fetches hhistory hlog hp'
  rw [eq_take_append ((List.getElem?_take_of_lt hafter).trans hq), List.map_append, List.map_cons,
    History.append_iff] at hhistory
  obtain ⟨v, -, hrest⟩ := hhistory
  obtain ⟨w, hwrite, hbetween⟩ := History.cons_iff.mp hrest
  -- Between the two places the other poll has not begun, and this one writes no second run.
  have hquiet : ∀ x ∈ ((log.take p').drop (q + 1)).map (·.2), x.movesRun j.id = false := by
    intro x hx
    obtain ⟨⟨n, x⟩, he, rfl⟩ := List.mem_map.mp hx
    obtain ⟨m, hqm, hmp, hm⟩ := exists_place_of_mem he
    rw [Exchange.movesRun_of_answered (hlog _ (List.mem_of_getElem? hm)).2]
    rcases hall _ (List.mem_of_getElem? hm) with rfl | rfl
    · rw [Bool.eq_false_iff, ne_eq, Exchange.writesRun_iff]
      rintro ⟨record, rfl⟩
      have := ((h.writes_iff m record.executedAt record.nextExecution).mp ⟨_, hm⟩).1
      omega
    · have := h'.first m _ hm
      omega
  have hrests : u.RestsUntil j.id next :=
    hbetween.keeps (I := fun t => t.RestsUntil j.id next)
      (fun heffect hx hrests => heffect.restsUntil hx hrests) hquiet
      hwrite.restsUntil_of_writesRun
  have hudistinct : u.DistinctIds := by
    unfold JobStore.DistinctIds
    rw [huids]
    exact hids
  exact hrests.le_of_isDue
    (JobStore.get?_of_mem hudistinct (JobStore.mem_of_mem_listActive hj)) hdue

theorem le_or_fetches_before (hids : s.DistinctIds) (hhistory : History s (log.map (·.2)) t)
    (hlog : Undisturbed log) (hne : i ≠ k) (hall : ∀ e ∈ log, e.1 = i ∨ e.1 = k)
    (h : RunsBetween log i id now next p q) (h' : RunsBetween log k id now' next' p' q') :
    next ≤ now' ∨ p' < q := by
  rcases Nat.lt_trichotomy q p' with hlt | heq | hlt
  · exact Or.inl (le_of_fetches_after hids hhistory hlog hall h h' hlt)
  · obtain ⟨result, hq⟩ := (h.writes_iff q now next).mpr ⟨rfl, rfl, rfl⟩
    obtain ⟨limit, jobs, hp', -⟩ := h'.due
    rw [heq, hp', Option.some.injEq, Prod.mk.injEq] at hq
    exact absurd hq.1.symm hne
  · exact Or.inr hlt

theorem exists_runsBetween (hids : s.DistinctIds) (hhistory : History s (log.map (·.2)) t)
    (hlog : Undisturbed log) {limit : Int} {durationMs : Nat} {report : PollReport}
    (hleads : Leads (poll limit now durationMs) (own i log) (done (.ok report))) {o : JobOutcome}
    (ho : o ∈ report.results) (hstatus : o.status = .executed) :
    ∃ next p q, o.nextRun = some next ∧ RunsBetween log i o.jobId now next p q := by
  rcases leads_poll hleads with ⟨e, -, he⟩ | ⟨jobs, ys, os, hown, hserved, hok⟩
  · cases he
  · cases hok
    obtain ⟨j, hj, next, hid, hdue, htold, hnext, hwritten⟩ := hserved.of_executed ho hstatus
    obtain ⟨p, hp, hfirst⟩ := exists_first_place hown
    have hnodup : (os.map (·.jobId)).Nodup := by
      obtain ⟨u, -, huids, hjobs⟩ := batch_of_fetches hhistory hlog hp
      rw [hserved.jobIds_eq, hjobs]
      refine JobStore.nodup_listActive ?_ limit
      unfold JobStore.DistinctIds
      rw [huids]
      exact hids
    -- One fetch and one run of the job: their places in the log are the only ones.
    have hfetches : (own i log).countP (·.fetches) ≤ 1 := by
      rw [hown, List.countP_cons, hserved.countP_fetches]
      exact Nat.le_refl 1
    have hwrites : (own i log).countP (·.writesRun o.jobId) ≤ 1 := by
      rw [hown, List.countP_cons, hserved.countP_writesRun]
      exact countP_tellsRun_le_one hnodup o.jobId
    have hmem : _ ∈ own i log := hown ▸ List.mem_cons_of_mem _ hwritten
    obtain ⟨q, hq⟩ := List.mem_iff_getElem?.mp (mem_own.mp hmem)
    refine ⟨next, p, q, htold, fun m => ?_, fun m instant u => ?_, hfirst,
      ⟨limit, jobs, hp, j, hj, hid, hdue⟩, lt_of_nextExecution hnext⟩
    · constructor
      · rintro ⟨limit', jobs', hm⟩
        exact place_unique hfetches hm rfl hp rfl
      · rintro rfl
        exact ⟨limit, jobs, hp⟩
    · constructor
      · rintro ⟨result, hm⟩
        obtain rfl := place_unique hwrites hm (decide_eq_true rfl) hq (decide_eq_true rfl)
        rw [hm] at hq
        cases hq
        exact ⟨rfl, rfl, rfl⟩
      · rintro ⟨rfl, rfl, rfl⟩
        exact ⟨_, hq⟩

end Poll

/-- Two polls at work on one store, in any order of their calls, that both tell a run of one job:
each one's instant is not before the next run that the other one wrote down, or its batch was
fetched before that was written. At one instant, each poll has fetched its batch before the other
wrote. -/
theorem overlapping_polls_have_fetched_before {s : JobStore} (hids : s.DistinctIds)
    (limit limit' : Int) (now now' : Instant) (durationMs durationMs' : Nat)
    (schedule : List (Nat × Moment)) {report report' : PollReport} :
    let f : SharedStore _ := ⟨s, [poll limit now durationMs, poll limit' now' durationMs']⟩
    (f.run schedule).answers? = [some (.ok report), some (.ok report')] →
    ∀ o ∈ report.results, ∀ o' ∈ report'.results,
      o.status = .executed → o'.status = .executed → o'.jobId = o.jobId →
      ∃ next next' p q p' q', o.nextRun = some next ∧ o'.nextRun = some next' ∧
        Poll.RunsBetween (f.log schedule) 0 o.jobId now next p q ∧
        Poll.RunsBetween (f.log schedule) 1 o.jobId now' next' p' q' ∧
        (next ≤ now' ∨ p' < q) ∧ (next' ≤ now ∨ p < q') ∧ (now = now' → p' < q ∧ p < q') := by
  intro f hdone o ho o' ho' hstatus hstatus' hsame
  have hleads : Leads (poll limit now durationMs) (SharedStore.own 0 (f.log schedule)) _ :=
    SharedStore.leads_of_answers? rfl (congrArg (·[0]?) hdone)
  have hleads' : Leads (poll limit' now' durationMs') (SharedStore.own 1 (f.log schedule)) _ :=
    SharedStore.leads_of_answers? rfl (congrArg (·[1]?) hdone)
  have hall : ∀ e ∈ f.log schedule, e.1 = 0 ∨ e.1 = 1 := by
    rintro ⟨i, x⟩ he
    have : i < 2 := SharedStore.lt_of_mem_log he
    simp only
    omega
  have hlog : Poll.Undisturbed (f.log schedule) := by
    rintro ⟨i, x⟩ he
    rcases hall _ he with rfl | rfl
    · have hx := SharedStore.mem_own.mpr he
      have hcalls := (Poll.poll_only limit durationMs).leads hleads x hx
      exact ⟨hcalls.not_inserts, hleads.answered nofun x hx⟩
    · have hx := SharedStore.mem_own.mpr he
      have hcalls := (Poll.poll_only limit' durationMs').leads hleads' x hx
      exact ⟨hcalls.not_inserts, hleads'.answered nofun x hx⟩
  have hhistory : History s ((f.log schedule).map (·.2)) (f.run schedule).store :=
    SharedStore.history_run f schedule
  obtain ⟨next, p, q, htold, h⟩ := Poll.exists_runsBetween hids hhistory hlog hleads ho hstatus
  obtain ⟨next', p', q', htold', h'⟩ :=
    Poll.exists_runsBetween hids hhistory hlog hleads' ho' hstatus'
  rw [hsame] at h'
  -- Both ways round, as the polls are on a par.
  have hlater := Poll.le_or_fetches_before hids hhistory hlog (by decide) hall h h'
  have hlater' := Poll.le_or_fetches_before hids hhistory hlog (by decide)
    (fun e he => (hall e he).symm) h' h
  refine ⟨next, next', p, q, p', q', htold, htold', h, h', hlater, hlater', ?_⟩
  rintro rfl
  exact ⟨hlater.resolve_left (Instant.not_le.mpr h.lt),
    hlater'.resolve_left (Instant.not_le.mpr h'.lt)⟩

/-- The second poll begins when the first one is done, and its instant is the next run. -/
theorem overlapping_polls_one_after_the_other :
    let j : Job := { (default : Job) with id := 1, isActive := true, scheduleExpression := "daily" }
    let s : JobStore := ⟨[j]⟩
    let m : Moment := ⟨.epoch, fun _ => none⟩
    let day₁ : Instant := ⟨1, 0, 0, by decide, by decide, by decide, by decide⟩
    let day₂ : Instant := ⟨2, 0, 0, by decide, by decide, by decide, by decide⟩
    let o (next : Instant) : JobOutcome := ⟨1, "", .executed, some next, none⟩
    let report (next : Instant) : PollReport := ⟨.ofOutcomes [o next], [o next], 0⟩
    let f : SharedStore _ := ⟨s, [poll 9 .epoch 0, poll 9 day₁ 0]⟩
    let schedule := [(0, m), (0, m), (1, m), (1, m)]
    s.DistinctIds ∧
      (f.run schedule).answers? = [some (.ok (report day₁)), some (.ok (report day₂))] ∧
      ∃ next p q p', Poll.RunsBetween (f.log schedule) 0 1 .epoch next p q ∧
        (next ≤ day₁ ∨ p' < q) := by
  intro j s m day₁ day₂ o report f schedule
  have hids : s.DistinctIds := by decide
  have hdone : (f.run schedule).answers? =
      [some (.ok (report day₁)), some (.ok (report day₂))] := by decide
  obtain ⟨next, next', p, q, p', q', -, -, h, -, hlater, -⟩ :=
    overlapping_polls_have_fetched_before hids 9 9 .epoch day₁ 0 0 schedule hdone
      (o day₁) List.mem_cons_self (o day₂) List.mem_cons_self rfl rfl rfl
  exact ⟨hids, hdone, next, p, q, p', h, hlater⟩

/-- Two polls at one instant, each of which fetches its batch before the other writes, both run the
job, although the next run is a day later. -/
theorem overlapping_polls_run_a_job_twice :
    let j : Job := { (default : Job) with id := 1, isActive := true, scheduleExpression := "daily" }
    let s : JobStore := ⟨[j]⟩
    let m : Moment := ⟨.epoch, fun _ => none⟩
    let day₁ : Instant := ⟨1, 0, 0, by decide, by decide, by decide, by decide⟩
    let o : JobOutcome := ⟨1, "", .executed, some day₁, none⟩
    let report : PollReport := ⟨.ofOutcomes [o], [o], 0⟩
    let f : SharedStore _ := ⟨s, [poll 9 .epoch 0, poll 9 .epoch 0]⟩
    let schedule := [(0, m), (1, m), (0, m), (1, m)]
    s.DistinctIds ∧ (f.run schedule).answers? = [some (.ok report), some (.ok report)] ∧
      ¬ day₁ ≤ .epoch := by
  intro j s m day₁ o report f schedule
  exact ⟨by decide, by decide, by decide⟩

end Cadence
