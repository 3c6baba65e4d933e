import Cadence.Job.Store

/-!
# The rows of a store

A store is looked at through the first row of each id.
-/

namespace Cadence

/-! ## Changed rows keep their ids -/

@[simp] theorem Job.withRun_id (j : Job) (record : ExecutionRecord) :
    (j.withRun record).id = j.id := rfl
@[simp] theorem Job.withExecution_id (j : Job) (record : ExecutionRecord) (clock : Instant) :
    (j.withExecution record clock).id = j.id := rfl
@[simp] theorem Job.withFailure_id (j : Job) (result : Json) (clock : Instant) :
    (j.withFailure result clock).id = j.id := rfl

namespace JobStore

/-- No two rows have the same id. -/
def DistinctIds (s : JobStore) : Prop := s.ids.Nodup

instance (s : JobStore) : Decidable s.DistinctIds := inferInstanceAs (Decidable s.ids.Nodup)

/-! ## The first row of an id -/

theorem id_of_get? {s : JobStore} {id : Int} {j : Job} (h : s.get? id = some j) : j.id = id := by
  simpa using List.find?_some h

theorem mem_of_get? {s : JobStore} {id : Int} {j : Job} (h : s.get? id = some j) : j ∈ s.rows :=
  List.mem_of_find?_eq_some h

theorem get?_eq_none_iff {s : JobStore} {id : Int} : s.get? id = none ↔ id ∉ s.ids := by
  simp [get?, ids]

theorem mem_ids_iff {s : JobStore} {id : Int} : id ∈ s.ids ↔ ∃ j, s.get? id = some j := by
  rw [← Option.ne_none_iff_exists', ne_eq, get?_eq_none_iff, Decidable.not_not]

theorem find?_of_mem {rows : List Job} (hids : (rows.map (·.id)).Nodup) {j : Job} (hj : j ∈ rows) :
    rows.find? (·.id = j.id) = some j := by
  induction rows with
  | nil => cases hj
  | cons r rest ih =>
    rw [List.map_cons, List.nodup_cons] at hids
    rw [List.find?_cons]
    by_cases hr : r.id = j.id
    · -- The id of `r` is not among the rest, so that `j` is `r`.
      have hne : j ∉ rest := fun hmem => hids.1 (hr ▸ List.mem_map_of_mem hmem)
      have : j = r := (List.mem_cons.mp hj).resolve_right hne
      simp [this]
    · have hmem : j ∈ rest := (List.mem_cons.mp hj).resolve_left fun h => hr (h ▸ rfl)
      simpa [hr] using ih hids.2 hmem

theorem get?_of_mem {s : JobStore} (hids : s.DistinctIds) {j : Job} (hj : j ∈ s.rows) :
    s.get? j.id = some j :=
  find?_of_mem hids hj

/-! ## A row in the place of another -/

theorem find?_putRow (j : Job) (rows : List Job) (id : Int) :
    (putRow j rows).find? (·.id = id) =
      if id = j.id then (rows.find? (·.id = id)).map fun _ => j else rows.find? (·.id = id) := by
  induction rows with
  | nil => simp [putRow]
  | cons r rest ih =>
    unfold putRow
    by_cases hr : r.id = j.id
    · by_cases hid : id = j.id
      · simp [hr, hid]
      · have : ¬ j.id = id := fun h => hid h.symm
        simp [hr, hid, this]
    · rw [if_neg hr, List.find?_cons, ih]
      by_cases hrid : r.id = id
      · have : ¬ id = j.id := fun h => hr (hrid.trans h)
        simp [hrid, this]
      · simp [hrid]

@[simp] theorem get?_put (s : JobStore) (j : Job) (id : Int) :
    (s.put j).get? id = if id = j.id then (s.get? id).map fun _ => j else s.get? id :=
  find?_putRow j s.rows id

theorem get?_put_self {s : JobStore} {id : Int} {j j' : Job} (hid : j'.id = id)
    (h : s.get? id = some j) : (s.put j').get? id = some j' := by
  simp [hid, h]

theorem get?_put_of_ne (s : JobStore) {j : Job} {id : Int} (h : id ≠ j.id) :
    (s.put j).get? id = s.get? id := by
  simp [h]

theorem putRow_of_find? {j : Job} {rows : List Job} (h : rows.find? (·.id = j.id) = some j) :
    putRow j rows = rows := by
  induction rows with
  | nil => rfl
  | cons r rest ih =>
    unfold putRow
    by_cases hr : r.id = j.id
    · have : r = j := by simpa [hr] using h
      rw [if_pos hr, this]
    · rw [if_neg hr, ih (by simpa [hr] using h)]

theorem put_of_get? {s : JobStore} {j : Job} (h : s.get? j.id = some j) : s.put j = s := by
  unfold put
  rw [putRow_of_find? h]

theorem map_id_putRow (j : Job) (rows : List Job) :
    (putRow j rows).map (·.id) = rows.map (·.id) := by
  induction rows with
  | nil => rfl
  | cons r rest ih =>
    unfold putRow
    split
    · rename_i hr
      simp [hr]
    · simp [ih]

@[simp] theorem ids_put (s : JobStore) (j : Job) : (s.put j).ids = s.ids := map_id_putRow j s.rows

/-- The store with rows in their places, one after the other. -/
def putAll (s : JobStore) (rows : List Job) : JobStore := rows.foldl put s

@[simp] theorem putAll_cons (s : JobStore) (row : Job) (rows : List Job) :
    s.putAll (row :: rows) = (s.put row).putAll rows := rfl

@[simp] theorem ids_putAll (s : JobStore) (rows : List Job) : (s.putAll rows).ids = s.ids := by
  induction rows generalizing s with
  | nil => rfl
  | cons row rest ih => rw [putAll_cons, ih, ids_put]

theorem get?_putAll_of_not_mem (s : JobStore) {rows : List Job} {id : Int}
    (h : id ∉ rows.map (·.id)) : (s.putAll rows).get? id = s.get? id := by
  induction rows generalizing s with
  | nil => rfl
  | cons row rest ih =>
    rw [List.map_cons, List.mem_cons, not_or] at h
    rw [putAll_cons, ih _ h.2, get?_put_of_ne s h.1]

theorem get?_putAll_of_mem {s : JobStore} {rows : List Job} (hids : (rows.map (·.id)).Nodup)
    {row : Job} (hrow : row ∈ rows) (hold : row.id ∈ s.ids) :
    (s.putAll rows).get? row.id = some row := by
  induction rows generalizing s with
  | nil => cases hrow
  | cons r rest ih =>
    rw [List.map_cons, List.nodup_cons] at hids
    rw [putAll_cons]
    rcases List.mem_cons.mp hrow with rfl | hrow
    · obtain ⟨j, hj⟩ := mem_ids_iff.mp hold
      rw [get?_putAll_of_not_mem _ hids.1, get?_put_self rfl hj]
    · exact ih hids.2 hrow (by rwa [ids_put])

theorem mem_putRow {j r : Job} {rows : List Job} (h : r ∈ putRow j rows) : r = j ∨ r ∈ rows := by
  induction rows with
  | nil => cases h
  | cons r' rest ih =>
    unfold putRow at h
    split at h
    · rw [List.mem_cons] at h ⊢
      exact h.imp_right Or.inr
    · rw [List.mem_cons] at h
      rcases h with rfl | h
      · exact Or.inr List.mem_cons_self
      · exact (ih h).imp_right (List.mem_cons_of_mem _)

theorem mem_put {s : JobStore} {j r : Job} (h : r ∈ (s.put j).rows) : r = j ∨ r ∈ s.rows :=
  mem_putRow h

/-! ## A row at the end -/

theorem rows_append (s : JobStore) (job : NewJob) (clock : Instant) :
    ∃ row : Job, (s.append job clock).rows = s.rows ++ [row] ∧ row.id = s.greatestId + 1 ∧
      row.lastExecuted = none ∧ row.executionCount = 0 ∧ row.errorCount = 0 :=
  ⟨_, rfl, rfl, rfl, rfl, rfl⟩

theorem ids_append (s : JobStore) (job : NewJob) (clock : Instant) :
    (s.append job clock).ids = s.ids ++ [s.greatestId + 1] := by
  simp [ids, append]

theorem get?_append_of_some {s : JobStore} {job : NewJob} {clock : Instant} {id : Int} {j : Job}
    (h : s.get? id = some j) : (s.append job clock).get? id = some j := by
  have h' : s.rows.find? (·.id = id) = some j := h
  unfold get? append
  rw [List.find?_append, h']
  rfl

theorem get?_append_of_none {s : JobStore} {job : NewJob} {clock : Instant} {id : Int}
    (h : s.get? id = none) {j : Job} (hj : (s.append job clock).get? id = some j) :
    j.lastExecuted = none ∧ j.executionCount = 0 ∧ j.errorCount = 0 := by
  have h' : s.rows.find? (·.id = id) = none := h
  obtain ⟨row, hrows, -, hzero⟩ := rows_append s job clock
  unfold get? at hj
  rw [hrows, List.find?_append, h', Option.none_or] at hj
  have : j = row := by simpa using List.mem_of_find?_eq_some hj
  rw [this]
  exact hzero

/-! ## Batches -/

theorem listActive_sublist (s : JobStore) (limit : Int) : (s.listActive limit).Sublist s.rows :=
  (List.take_sublist _ _).trans List.filter_sublist

theorem mem_of_mem_listActive {s : JobStore} {limit : Int} {j : Job} (h : j ∈ s.listActive limit) :
    j ∈ s.rows :=
  (s.listActive_sublist limit).subset h

theorem nodup_listActive {s : JobStore} (hids : s.DistinctIds) (limit : Int) :
    ((s.listActive limit).map (·.id)).Nodup :=
  ((s.listActive_sublist limit).map _).nodup hids

end JobStore

end Cadence
