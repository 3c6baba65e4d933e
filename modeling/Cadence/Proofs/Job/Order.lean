import Cadence.Proofs.Job.Ids

/-!
# The order of the rows

What holds of a job table whoever uses it, and in whichever order: the ids ascend, each function has
one row, and a row stays where it is and what it is, but for the books that are kept in it.
-/

namespace Cadence

/-! ## Uses -/

/-- A use of a store: a look at the row of an id, or a call in some circumstances. -/
inductive StoreUse
  | get (id : Int)
  | call (m : Moment) (c : StoreCall)

/-- What comes of a use. -/
def StoreUse.Outcome : StoreUse → Type
  | get _ => Option Job
  | call _ c => c.Outcome

/-- What comes of a use, and the store afterwards. -/
def StoreUse.perform (s : JobStore) : (u : StoreUse) → u.Outcome × JobStore
  | get id => (s.get? id, s)
  | call m c => m.perform s c

namespace JobStore

/-- The store after some uses, whoever made them. -/
def after (s : JobStore) : List StoreUse → JobStore
  | [] => s
  | u :: uses => (u.perform s).2.after uses

/-- The functions of the rows, in the order of the rows. -/
def functionNames (s : JobStore) : List String := s.rows.map (·.functionName)

/-- The ids ascend, and no two rows are for one function. -/
structure Tidy (s : JobStore) : Prop where
  ascending : s.ids.Pairwise (· < ·)
  distinct : s.functionNames.Nodup

end JobStore

/-- A row as it may become: what it was made with stays, and its counters do not go back. -/
structure Job.Keeps (j j' : Job) : Prop where
  id : j'.id = j.id
  name : j'.name = j.name
  functionName : j'.functionName = j.functionName
  scheduleExpression : j'.scheduleExpression = j.scheduleExpression
  isActive : j'.isActive = j.isActive
  maxRetries : j'.maxRetries = j.maxRetries
  timeoutSeconds : j'.timeoutSeconds = j.timeoutSeconds
  description : j'.description = j.description
  createdAt : j'.createdAt = j.createdAt
  executions : j.executionCount ≤ j'.executionCount
  errors : j.errorCount ≤ j'.errorCount

/-- Each row is still in its place. -/
def JobStore.Extends (t s : JobStore) : Prop :=
  ∀ (i : Nat) (j : Job), s.rows[i]? = some j → ∃ j', t.rows[i]? = some j' ∧ j.Keeps j'

/-! ## Rows -/

namespace Job

variable {j j' j'' : Job}

theorem Keeps.refl (j : Job) : j.Keeps j :=
  ⟨rfl, rfl, rfl, rfl, rfl, rfl, rfl, rfl, rfl, Int.le_refl _, Int.le_refl _⟩

theorem Keeps.trans (h : j.Keeps j') (h' : j'.Keeps j'') : j.Keeps j'' where
  id := h'.id.trans h.id
  name := h'.name.trans h.name
  functionName := h'.functionName.trans h.functionName
  scheduleExpression := h'.scheduleExpression.trans h.scheduleExpression
  isActive := h'.isActive.trans h.isActive
  maxRetries := h'.maxRetries.trans h.maxRetries
  timeoutSeconds := h'.timeoutSeconds.trans h.timeoutSeconds
  description := h'.description.trans h.description
  createdAt := h'.createdAt.trans h.createdAt
  executions := Int.le_trans h.executions h'.executions
  errors := Int.le_trans h.errors h'.errors

theorem keeps_withRun (j : Job) (record : ExecutionRecord) : j.Keeps (j.withRun record) :=
  { Keeps.refl j with }

theorem keeps_withExecution (j : Job) (record : ExecutionRecord) (clock : Instant) :
    j.Keeps (j.withExecution record clock) :=
  { Keeps.refl j with executions := Int.le_add_one (Int.le_refl _) }

theorem keeps_withFailure (j : Job) (result : Json) (clock : Instant) :
    j.Keeps (j.withFailure result clock) :=
  { Keeps.refl j with errors := Int.le_add_one (Int.le_refl _) }

end Job

namespace JobStore

variable {s t u : JobStore} {j j' : Job}

theorem Extends.refl (s : JobStore) : s.Extends s := fun _ j hj => ⟨j, hj, Job.Keeps.refl j⟩

theorem Extends.trans (h : u.Extends t) (h' : t.Extends s) : u.Extends s := by
  intro i j hj
  obtain ⟨j', hj', hkeeps⟩ := h' i j hj
  obtain ⟨j'', hj'', hkeeps'⟩ := h i j' hj'
  exact ⟨j'', hj'', hkeeps.trans hkeeps'⟩

theorem map_putRow {α : Type} {f : Job → α} (hf : f j' = f j) {rows : List Job}
    (hrow : rows.find? (·.id = j'.id) = some j) : (putRow j' rows).map f = rows.map f := by
  induction rows with
  | nil => rfl
  | cons r rest ih =>
    unfold putRow
    by_cases hr : r.id = j'.id
    · have hsame : r = j := by simpa [hr] using hrow
      rw [if_pos hr, List.map_cons, List.map_cons, hf, hsame]
    · rw [if_neg hr, List.map_cons, List.map_cons, ih (by simpa [hr] using hrow)]

theorem getElem?_putRow {rows : List Job} (hrow : rows.find? (·.id = j'.id) = some j) {i : Nat}
    {r : Job} (hr : rows[i]? = some r) :
    (putRow j' rows)[i]? = some r ∨ r = j ∧ (putRow j' rows)[i]? = some j' := by
  induction rows generalizing i with
  | nil => cases hr
  | cons first rest ih =>
    unfold putRow
    by_cases hfirst : first.id = j'.id
    · have hsame : first = j := by simpa [hfirst] using hrow
      rw [if_pos hfirst]
      cases i with
      | zero => exact .inr ⟨(Option.some.inj hr).symm.trans hsame, rfl⟩
      | succ i => exact .inl hr
    · rw [if_neg hfirst]
      cases i with
      | zero => exact .inl hr
      | succ i => exact ih (by simpa [hfirst] using hrow) hr

theorem extends_put (hrow : s.get? j'.id = some j) (hkeeps : j.Keeps j') :
    (s.put j').Extends s := by
  intro i r hr
  rcases getElem?_putRow hrow hr with hsame | ⟨rfl, hnew⟩
  · exact ⟨r, hsame, Job.Keeps.refl r⟩
  · exact ⟨j', hnew, hkeeps⟩

theorem extends_append (s : JobStore) (job : NewJob) (clock : Instant) :
    (s.append job clock).Extends s := by
  intro i j hj
  obtain ⟨row, hrows, -⟩ := s.rows_append job clock
  refine ⟨j, ?_, Job.Keeps.refl j⟩
  rw [hrows, List.getElem?_append_left (List.getElem?_eq_some_iff.mp hj).1]
  exact hj

/-! ## Order -/

theorem Tidy.put (h : s.Tidy) (hrow : s.get? j'.id = some j) (hkeeps : j.Keeps j') :
    (s.put j').Tidy where
  ascending := by
    rw [ids_put]
    exact h.ascending
  distinct := by
    have hnames : (s.put j').functionNames = s.functionNames :=
      map_putRow hkeeps.functionName hrow
    rw [hnames]
    exact h.distinct

theorem functionNames_append (s : JobStore) (job : NewJob) (clock : Instant) :
    (s.append job clock).functionNames = s.functionNames ++ [job.functionName] :=
  List.map_append

theorem hasFunction_eq_false_iff {name : String} :
    s.hasFunction name = false ↔ name ∉ s.functionNames := by
  simp [hasFunction, functionNames]

theorem Tidy.append (h : s.Tidy) {job : NewJob} (hhas : s.hasFunction job.functionName = false)
    (clock : Instant) : (s.append job clock).Tidy where
  ascending := by
    rw [ids_append, List.pairwise_append]
    refine ⟨h.ascending, List.pairwise_singleton _ _, fun id hid id' hid' => ?_⟩
    have hle := le_greatestId hid
    rw [List.mem_singleton.mp hid']
    omega
  distinct := by
    rw [functionNames_append, List.nodup_append]
    refine ⟨h.distinct, List.pairwise_singleton _ _, fun name hname name' hname' => ?_⟩
    rintro rfl
    rw [List.mem_singleton.mp hname'] at hname
    exact hasFunction_eq_false_iff.mp hhas hname

theorem tidy_ofRows {rows : List Job} (hids : (rows.map (·.id)).Nodup)
    (hnames : (rows.map (·.functionName)).Nodup) : (ofRows rows).Tidy where
  ascending := by
    have hperm : (ofRows rows).rows.Perm rows := List.mergeSort_perm _ _
    have hdistinct : ((ofRows rows).rows.map (·.id)).Nodup := (hperm.map _).nodup_iff.mpr hids
    have hsorted : (ofRows rows).rows.Pairwise fun a b => decide (a.id ≤ b.id) = true :=
      List.pairwise_mergeSort (fun a b c => by simpa using Int.le_trans)
        (fun a b => by simpa using Int.le_total a.id b.id) _
    have hle : ((ofRows rows).rows.map (·.id)).Pairwise (· ≤ ·) :=
      List.pairwise_map.mpr (hsorted.imp of_decide_eq_true)
    -- The sort only gives `≤`.
    exact (hle.and hdistinct).imp fun h => Int.lt_iff_le_and_ne.mpr h
  distinct := ((List.mergeSort_perm rows _).map _).nodup_iff.mpr hnames

theorem tidy_empty : empty.Tidy := ⟨.nil, .nil⟩

end JobStore

/-! ## One use -/

/-- A change that keeps the row of an id has the store stay tidy, and each row in its place. -/
theorem JobStore.keeps_put {s : JobStore} (hs : s.Tidy) {id : Int} {j j' : Job}
    (hrow : s.get? id = some j) (hkeeps : j.Keeps j') :
    (s.put j').Tidy ∧ (s.put j').Extends s := by
  have hrow' : s.get? j'.id = some j := by
    rw [hkeeps.id, JobStore.id_of_get? hrow]
    exact hrow
  exact ⟨hs.put hrow' hkeeps, JobStore.extends_put hrow' hkeeps⟩

theorem Effect.keeps {s t : JobStore} {x : Exchange} (h : Effect s x t) (hs : s.Tidy) :
    t.Tidy ∧ t.Extends s := by
  cases h with
  | refused | list | listActive | present | brokenFailure | brokenInsertion => exact ⟨hs, .refl s⟩
  | executed record clock hrow => exact s.keeps_put hs hrow (Job.keeps_withExecution _ record clock)
  | brokenRun record hrow => exact s.keeps_put hs hrow (Job.keeps_withRun _ record)
  | failed result clock hrow => exact s.keeps_put hs hrow (Job.keeps_withFailure _ result clock)
  | inserted job clock hhas => exact ⟨hs.append hhas clock, s.extends_append job clock⟩

theorem Effect.of_error {s t : JobStore} {c : StoreCall} {e : ServiceError}
    (h : Effect s ⟨c, some (.error e)⟩ t) : t = s := by
  cases h
  rfl

theorem Effect.of_present {s t : JobStore} {job : NewJob}
    (h : Effect s ⟨.insertIfAbsent job, some (.ok false)⟩ t) : t = s := by
  cases h
  rfl

theorem StoreUse.step {s : JobStore} (hs : s.Tidy) (u : StoreUse) :
    (u.perform s).2.Tidy ∧ (u.perform s).2.Extends s := by
  cases u with
  | get id => exact ⟨hs, .refl s⟩
  | call m c => exact (m.effect_perform s c).keeps hs

/-! ## Sequences of uses -/

namespace JobStore

variable {s : JobStore}

theorem after_append (s : JobStore) (first second : List StoreUse) :
    s.after (first ++ second) = (s.after first).after second := by
  induction first generalizing s with
  | nil => rfl
  | cons u rest ih => exact ih _

theorem Tidy.after (hs : s.Tidy) (uses : List StoreUse) :
    (s.after uses).Tidy ∧ (s.after uses).Extends s := by
  induction uses generalizing s with
  | nil => exact ⟨hs, .refl s⟩
  | cons u rest ih =>
    obtain ⟨htidy, hextends⟩ := u.step hs
    obtain ⟨htidy', hextends'⟩ := ih htidy
    exact ⟨htidy', hextends'.trans hextends⟩

end JobStore

/-- From an empty store or one of given rows, whatever uses are made of it in whichever order: the
ids ascend, each function has one row, each row stays in its place and is what it was made to be,
and a call that fails or that puts nothing in changes nothing. -/
theorem store_keeps_order {s : JobStore} (hstart : s = .empty ∨ ∃ rows : List Job,
      (rows.map (·.id)).Nodup ∧ (rows.map (·.functionName)).Nodup ∧ s = .ofRows rows)
    (first second : List StoreUse) :
    (s.after first).Tidy ∧ (s.after (first ++ second)).Tidy ∧
      (s.after (first ++ second)).Extends (s.after first) ∧
      (∀ (m : Moment) (c : StoreCall) (e : ServiceError),
        (m.perform (s.after first) c).1 = some (.error e) →
          (m.perform (s.after first) c).2 = s.after first) ∧
      ∀ (m : Moment) (job : NewJob),
        (m.perform (s.after first) (.insertIfAbsent job)).1 = some (.ok false) →
          (m.perform (s.after first) (.insertIfAbsent job)).2 = s.after first := by
  have htidy : s.Tidy := by
    rcases hstart with rfl | ⟨rows, hids, hnames, rfl⟩
    · exact JobStore.tidy_empty
    · exact JobStore.tidy_ofRows hids hnames
  obtain ⟨hmiddle, -⟩ := htidy.after first
  obtain ⟨hend, hextends⟩ := hmiddle.after second
  rw [JobStore.after_append]
  refine ⟨hmiddle, hend, hextends, fun m c e he => ?_, fun m job hfalse => ?_⟩
  · have heffect := m.effect_perform (s.after first) c
    rw [he] at heffect
    exact heffect.of_error
  · have heffect := m.effect_perform (s.after first) (.insertIfAbsent job)
    rw [hfalse] at heffect
    exact heffect.of_present

/-- Two rows are put in order, a third one gets the next id, one function has its row already, and
one id has none. -/
theorem store_keeps_order_of_three_rows :
    let row (id : Int) (name : String) : Job :=
      { (default : Job) with id := id, functionName := name }
    let job (name : String) : NewJob := ⟨name, name, "daily", true, none, 3, 300, none⟩
    let free : Moment := ⟨.epoch, fun _ => none⟩
    let rows := [row 5 "mail", row (-3) "clean"]
    let s := JobStore.ofRows rows
    let first : List StoreUse :=
      [.call free (.insertIfAbsent (job "report")), .call free (.insertIfAbsent (job "mail"))]
    let second : List StoreUse :=
      [.get 5, .call free (.recordExecution 5 ⟨.epoch, .epoch, .null⟩),
        .call free (.recordFailure 9 .null)]
    (rows.map (·.id)).Nodup ∧ (rows.map (·.functionName)).Nodup ∧
      (s.after first).ids = [-3, 5, 6] ∧ (s.after (first ++ second)).Tidy ∧
      (s.after (first ++ second)).Extends (s.after first) := by
  intro row job free rows s first second
  have hids : (rows.map (·.id)).Nodup := by decide
  have hnames : (rows.map (·.functionName)).Nodup := by decide
  have hs : s = ⟨[row (-3) "clean", row 5 "mail"]⟩ := by
    simp [s, rows, row, JobStore.ofRows, List.mergeSort]
  obtain ⟨-, htidy, hextends, -⟩ :=
    store_keeps_order (.inr ⟨rows, hids, hnames, rfl⟩) first second
  exact ⟨hids, hnames, by rw [hs]; decide, htidy, hextends⟩

end Cadence
