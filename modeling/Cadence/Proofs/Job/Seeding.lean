import Cadence.Proofs.Job.Errand
import Cadence.Proofs.Job.Order
import Mathlib.Data.List.Induction

/-!
# What a seeding puts in

A seeding adds a row for each function that has none, and touches no other. One that broke off is
made good by seeding again: the rows are then those of one go, but for the times at which they were
put in.
-/

namespace Cadence

open StoreScript

/-! ## What is missing -/

/-- The row of a definition that is put in at a time of the clock. -/
def JobDefinition.row (d : JobDefinition) (id : Int) (clock : Instant) : Job where
  id := id
  name := d.name
  functionName := d.functionName
  scheduleExpression := d.scheduleExpression
  isActive := true
  nextExecution := none
  lastExecuted := none
  executionCount := 0
  errorCount := 0
  maxRetries := d.maxRetries
  timeoutSeconds := d.timeoutSeconds
  lastResult := none
  description := some d.description
  createdAt := clock
  updatedAt := clock

/-- The row without the times at which it was put in and last changed. -/
def Job.untimed (j : Job) : Job := { j with createdAt := .epoch, updatedAt := .epoch }

namespace JobStore

/-- The functions that have a row once the first `i` definitions are in. -/
def knownAt (s : JobStore) (ds : List JobDefinition) (i : Nat) : List String :=
  s.functionNames ++ (ds.take i).map (·.functionName)

/-- The definitions, each with its place, whose function has no row by then. -/
def missing (s : JobStore) (ds : List JobDefinition) : List (JobDefinition × Nat) :=
  ds.zipIdx.filter fun (d, i) => d.functionName ∉ s.knownAt ds i

/-- The definitions whose function has a row by then. -/
def present (s : JobStore) (ds : List JobDefinition) : List (JobDefinition × Nat) :=
  ds.zipIdx.filter fun (d, i) => d.functionName ∈ s.knownAt ds i

def seedReport (s : JobStore) (ds : List JobDefinition) : SeedReport :=
  ⟨(s.missing ds).map (·.1.functionName), (s.present ds).map (·.1.functionName)⟩

/-- The rows of the missing functions, with the next ids; `clock i` is the time at which the
definition at the place `i` comes in. -/
def seedRows (s : JobStore) (ds : List JobDefinition) (clock : Nat → Instant) : List Job :=
  (s.missing ds).zipIdx.map fun ((d, i), k) => d.row (s.greatestId + k + 1) (clock i)

/-- The rows are the same, but for the times at which they were put in and last changed. -/
def Alike (s t : JobStore) : Prop := s.rows.map (·.untimed) = t.rows.map (·.untimed)

/-- The function of the definition has a row, or there is an id for one. -/
def Takes (s : JobStore) (d : JobDefinition) : Prop :=
  d.functionName ∈ s.functionNames ∨ s.greatestId < Text.i32Max

/-- The store with the row of a definition, if its function had none. -/
def plant (s : JobStore) (d : JobDefinition) (clock : Instant) : JobStore :=
  if d.functionName ∈ s.functionNames then s else s.append d.toNewJob clock

end JobStore

/-- None of the insertions fails; the first one is the call `n`. -/
def Undisturbed (moments : Nat → Moment) (n : Nat) (ds : List JobDefinition) : Prop :=
  ∀ (i : Nat) (d : JobDefinition), ds[i]? = some d →
    (moments (n + i)).fault? (.insertIfAbsent d.toNewJob) = none

/-- What is promised of a script that seeds the definitions. -/
structure Seeds (p : StoreScript (Except ServiceError SeedReport)) (ds : List JobDefinition)
    (s : JobStore) : Prop where
  /-- The missing rows come after those that are there, which stay as they are. -/
  whole : ∀ (moments : Nat → Moment) (n : Nat), Undisturbed moments n ds →
    p.run moments n s =
      (some (.ok (s.seedReport ds)), ⟨s.rows ++ s.seedRows ds fun i => (moments (n + i)).clock⟩)
  /-- Seeding again finds all functions and changes nothing. -/
  again : ∀ (moments moments' : Nat → Moment) (n n' : Nat), Undisturbed moments n ds →
    Undisturbed moments' n' ds →
      p.run moments' n' (p.run moments n s).2 =
        (some (.ok ⟨[], ds.map (·.functionName)⟩), (p.run moments n s).2)
  /-- An insertion that fails ends the seeding where it is. -/
  broken : ∀ (moments : Nat → Moment) (n k : Nat) (d : JobDefinition) (e : ServiceError),
    Undisturbed moments n (ds.take k) → ds[k]? = some d →
      (moments (n + k)).fault? (.insertIfAbsent d.toNewJob) = some e →
        p.run moments n s = (some (.error e), ((seed (ds.take k)).run moments n s).2)
  /-- From there, seeding again comes to what one go would have. -/
  resumed : ∀ (moments moments' moments'' : Nat → Moment) (n n' n'' k : Nat),
    Undisturbed moments n (ds.take k) → Undisturbed moments' n' ds → Undisturbed moments'' n'' ds →
      let t := ((seed (ds.take k)).run moments n s).2
      (p.run moments' n' t).1 = some (.ok (t.seedReport ds)) ∧
        (p.run moments' n' t).2.Alike (p.run moments'' n'' s).2

/-! ## One definition -/

namespace JobStore

variable {s t : JobStore} {d : JobDefinition}

theorem plant_of_mem (h : d.functionName ∈ s.functionNames) (clock : Instant) :
    s.plant d clock = s := if_pos h

theorem plant_of_not_mem (h : d.functionName ∉ s.functionNames) (clock : Instant) :
    s.plant d clock = ⟨s.rows ++ [d.row (s.greatestId + 1) clock]⟩ := if_neg h

theorem hasFunction_iff {name : String} : s.hasFunction name = true ↔ name ∈ s.functionNames := by
  rw [← Bool.not_eq_false, hasFunction_eq_false_iff, not_not]

theorem perform_insertIfAbsent {m : Moment} (h : m.fault? (.insertIfAbsent d.toNewJob) = none)
    (htakes : s.Takes d) :
    m.perform s (.insertIfAbsent d.toNewJob) =
      (some (.ok (decide (d.functionName ∉ s.functionNames))), s.plant d m.clock) := by
  rw [Moment.perform_of_no_fault h]
  unfold StoreCall.perform
  change (if s.hasFunction d.functionName then _ else _) = _
  by_cases hmem : d.functionName ∈ s.functionNames
  · rw [if_pos (hasFunction_iff.mpr hmem), plant_of_mem hmem, decide_eq_false (not_not_intro hmem)]
  · have hroom : s.greatestId < Text.i32Max := htakes.resolve_left hmem
    rw [if_neg (mt hasFunction_iff.mp hmem), if_pos hroom, decide_eq_true hmem]
    unfold plant
    rw [if_neg hmem]

theorem perform_insertIfAbsent_of_full {m : Moment}
    (h : m.fault? (.insertIfAbsent d.toNewJob) = none) (hfull : ¬ s.Takes d) :
    m.perform s (.insertIfAbsent d.toNewJob) = (none, s) := by
  obtain ⟨hmem, hroom⟩ := not_or.mp hfull
  rw [Moment.perform_of_no_fault h]
  unfold StoreCall.perform
  change (if s.hasFunction d.functionName then _ else _) = _
  rw [if_neg (mt hasFunction_iff.mp hmem), if_neg hroom]

theorem mem_functionNames_plant {name : String} (clock : Instant) :
    name ∈ (s.plant d clock).functionNames ↔ name ∈ s.functionNames ∨ name = d.functionName := by
  by_cases hmem : d.functionName ∈ s.functionNames
  · rw [plant_of_mem hmem]
    refine ⟨.inl, ?_⟩
    rintro (h | rfl)
    · exact h
    · exact hmem
  · rw [plant_of_not_mem hmem, functionNames, List.map_append, List.mem_append]
    exact or_congr_right List.mem_singleton

/-! ## Alike stores -/

theorem Alike.refl (s : JobStore) : s.Alike s := rfl

theorem Alike.map_eq {α : Type} {f : Job → α} (hf : ∀ j : Job, f j.untimed = f j)
    (h : s.Alike t) : s.rows.map f = t.rows.map f := by
  have hmap := congrArg (List.map f) h
  simpa only [List.map_map, Function.comp_def, hf] using hmap

theorem Alike.functionNames_eq (h : s.Alike t) : s.functionNames = t.functionNames :=
  h.map_eq fun _ => rfl

theorem Alike.greatestId_eq (h : s.Alike t) : s.greatestId = t.greatestId := by
  have hids : s.ids = t.ids := h.map_eq fun _ => rfl
  unfold greatestId
  rw [hids]

theorem Alike.takes_iff (h : s.Alike t) : s.Takes d ↔ t.Takes d := by
  unfold Takes
  rw [h.functionNames_eq, h.greatestId_eq]

theorem Alike.plant (h : s.Alike t) (d : JobDefinition) (clock clock' : Instant) :
    (s.plant d clock).Alike (t.plant d clock') := by
  by_cases hmem : d.functionName ∈ t.functionNames
  · rw [plant_of_mem hmem, plant_of_mem (h.functionNames_eq ▸ hmem)]
    exact h
  · rw [plant_of_not_mem hmem, plant_of_not_mem (h.functionNames_eq ▸ hmem)]
    unfold Alike
    rw [List.map_append, List.map_append, h, h.greatestId_eq]
    rfl

end JobStore

/-! ## One after the other -/

section Run

variable {moments moments' : Nat → Moment} {n n' : Nat} {s t : JobStore}
variable {ds first second : List JobDefinition} {report : SeedReport}

theorem undisturbed_cons_iff {d : JobDefinition} :
    Undisturbed moments n (d :: ds) ↔
      (moments n).fault? (.insertIfAbsent d.toNewJob) = none ∧ Undisturbed moments (n + 1) ds := by
  constructor
  · intro h
    refine ⟨h 0 d rfl, fun i e he => ?_⟩
    have hnext := h (i + 1) e he
    rwa [show n + (i + 1) = n + 1 + i by omega] at hnext
  · rintro ⟨hfirst, hrest⟩ i e he
    cases i with
    | zero =>
      rw [← Option.some.inj he]
      exact hfirst
    | succ i =>
      rw [show n + (i + 1) = n + 1 + i by omega]
      exact hrest i e he

theorem undisturbed_append_iff :
    Undisturbed moments n (first ++ second) ↔
      Undisturbed moments n first ∧ Undisturbed moments (n + first.length) second := by
  induction first generalizing n with
  | nil =>
    have hnil : Undisturbed moments n [] := nofun
    exact (and_iff_right hnil).symm
  | cons d rest ih =>
    rw [List.cons_append, undisturbed_cons_iff, undisturbed_cons_iff, ih, and_assoc,
      List.length_cons, show n + (rest.length + 1) = n + 1 + rest.length by omega]

theorem run_seed_cons {d : JobDefinition}
    (h : (moments n).fault? (.insertIfAbsent d.toNewJob) = none) (htakes : s.Takes d) :
    (seed (d :: ds)).run moments n s =
      (((seed ds).run moments (n + 1) (s.plant d (moments n).clock)).1.map (Except.map
          (SeedReport.ofOne d (decide (d.functionName ∉ s.functionNames))).append),
        ((seed ds).run moments (n + 1) (s.plant d (moments n).clock)).2) := by
  rw [seed_cons, run_call_of_eq (JobStore.perform_insertIfAbsent h htakes)]
  exact run_bind_done _ _ _ _ _

theorem run_seed_of_full {d : JobDefinition}
    (h : (moments n).fault? (.insertIfAbsent d.toNewJob) = none) (hfull : ¬ s.Takes d) :
    (seed (d :: ds)).run moments n s = (none, s) := by
  rw [seed_cons, run_call_of_eq (JobStore.perform_insertIfAbsent_of_full h hfull)]
  rfl

theorem run_seed_of_fault {d : JobDefinition} {e : ServiceError}
    (h : (moments n).fault? (.insertIfAbsent d.toNewJob) = some e) (s : JobStore) :
    (seed (d :: ds)).run moments n s = (some (.error e), s) := by
  rw [seed_cons, run_call_of_eq (Moment.perform_of_fault h s)]
  rfl

theorem run_seed_of_done_cons {d : JobDefinition}
    (h : (moments n).fault? (.insertIfAbsent d.toNewJob) = none)
    (hdone : (seed (d :: ds)).run moments n s = (some (.ok report), t)) :
    s.Takes d ∧ ∃ report',
      (seed ds).run moments (n + 1) (s.plant d (moments n).clock) = (some (.ok report'), t) ∧
        report =
          (SeedReport.ofOne d (decide (d.functionName ∉ s.functionNames))).append report' := by
  by_cases htakes : s.Takes d
  · rw [run_seed_cons h htakes] at hdone
    rcases hrest : (seed ds).run moments (n + 1) (s.plant d (moments n).clock) with
      ⟨_ | _ | report', t'⟩
    · rw [hrest] at hdone
      cases hdone
    · rw [hrest] at hdone
      cases hdone
    · rw [hrest] at hdone
      cases hdone
      exact ⟨htakes, report', rfl, rfl⟩
  · rw [run_seed_of_full h htakes] at hdone
    cases hdone

theorem run_seed_append (hfirst : Undisturbed moments n first)
    (hdone : (seed first).run moments n s = (some (.ok report), t)) (second : List JobDefinition) :
    (seed (first ++ second)).run moments n s =
      (((seed second).run moments (n + first.length) t).1.map (Except.map report.append),
        ((seed second).run moments (n + first.length) t).2) := by
  induction first generalizing n s report with
  | nil =>
    cases hdone
    have hself (r : Option (Except ServiceError SeedReport)) :
        r.map (Except.map SeedReport.empty.append) = r := by
      rcases r with _ | _ | _ <;> rfl
    rw [hself]
    rfl
  | cons d rest ih =>
    obtain ⟨hhead, hrest⟩ := undisturbed_cons_iff.mp hfirst
    obtain ⟨htakes, report', hthen, rfl⟩ := run_seed_of_done_cons hhead hdone
    rw [List.cons_append, run_seed_cons hhead htakes, ih hrest hthen, List.length_cons,
      show n + (rest.length + 1) = n + 1 + rest.length by omega]
    refine Prod.ext ?_ rfl
    rcases ((seed second).run moments (n + 1 + rest.length) t).1 with _ | _ | report''
    · rfl
    · rfl
    · exact congrArg (some ∘ Except.ok) (SeedReport.append_assoc _ _ _).symm

theorem run_seed_of_present (h : Undisturbed moments n ds)
    (hpresent : ∀ d ∈ ds, d.functionName ∈ s.functionNames) :
    (seed ds).run moments n s = (some (.ok ⟨[], ds.map (·.functionName)⟩), s) := by
  induction ds generalizing n with
  | nil => rfl
  | cons d rest ih =>
    obtain ⟨hhead, hrest⟩ := undisturbed_cons_iff.mp h
    have hmem := hpresent d List.mem_cons_self
    rw [run_seed_cons hhead (Or.inl hmem), JobStore.plant_of_mem hmem,
      ih hrest fun d hd => hpresent d (List.mem_cons_of_mem _ hd),
      decide_eq_false (not_not_intro hmem)]
    rfl

theorem mem_functionNames_run_seed (h : Undisturbed moments n ds)
    (hdone : (seed ds).run moments n s = (some (.ok report), t)) {name : String} :
    name ∈ t.functionNames ↔ name ∈ s.functionNames ∨ name ∈ ds.map (·.functionName) := by
  induction ds generalizing n s report with
  | nil =>
    cases hdone
    exact (or_iff_left List.not_mem_nil).symm
  | cons d rest ih =>
    obtain ⟨hhead, hrest⟩ := undisturbed_cons_iff.mp h
    obtain ⟨-, report', hthen, -⟩ := run_seed_of_done_cons hhead hdone
    rw [ih hrest hthen, JobStore.mem_functionNames_plant, or_assoc, List.map_cons, List.mem_cons]

theorem alike_run_seed (halike : s.Alike t) (h : Undisturbed moments n ds)
    (h' : Undisturbed moments' n' ds) :
    ((seed ds).run moments n s).2.Alike ((seed ds).run moments' n' t).2 := by
  induction ds generalizing n n' s t with
  | nil => exact halike
  | cons d rest ih =>
    obtain ⟨hhead, hrest⟩ := undisturbed_cons_iff.mp h
    obtain ⟨hhead', hrest'⟩ := undisturbed_cons_iff.mp h'
    by_cases htakes : s.Takes d
    · rw [run_seed_cons hhead htakes, run_seed_cons hhead' (halike.takes_iff.mp htakes)]
      exact ih (halike.plant d _ _) hrest hrest'
    · rw [run_seed_of_full hhead htakes, run_seed_of_full hhead' (mt halike.takes_iff.mpr htakes)]
      exact halike

end Run

/-! ## The missing ones -/

namespace JobStore

variable {s t : JobStore} {ds : List JobDefinition} {d : JobDefinition}

theorem filter_knownAt_concat (s : JobStore) (ds : List JobDefinition) (d : JobDefinition)
    (P : String → List String → Bool) :
    ((ds ++ [d]).zipIdx.filter fun (e, i) => P e.functionName (s.knownAt (ds ++ [d]) i)) =
      (ds.zipIdx.filter fun (e, i) => P e.functionName (s.knownAt ds i)) ++
        if P d.functionName (s.knownAt ds ds.length) then [(d, ds.length)] else [] := by
  have hknown {i : Nat} (hi : i ≤ ds.length) : s.knownAt (ds ++ [d]) i = s.knownAt ds i := by
    unfold knownAt
    rw [List.take_append_of_le_length hi]
  rw [List.zipIdx_append, List.filter_append]
  congr 1
  · refine List.filter_congr fun ⟨e, i⟩ hmem => ?_
    have hi := List.snd_lt_of_mem_zipIdx hmem
    simp only [hknown (show i ≤ ds.length by omega)]
  · simp [hknown, List.filter_cons]

theorem missing_concat_of_mem (h : d.functionName ∈ s.knownAt ds ds.length) :
    s.missing (ds ++ [d]) = s.missing ds := by
  have hsplit := s.filter_knownAt_concat ds d fun name known => name ∉ known
  rw [if_neg (by simpa using h), List.append_nil] at hsplit
  exact hsplit

theorem missing_concat_of_not_mem (h : d.functionName ∉ s.knownAt ds ds.length) :
    s.missing (ds ++ [d]) = s.missing ds ++ [(d, ds.length)] := by
  have hsplit := s.filter_knownAt_concat ds d fun name known => name ∉ known
  rw [if_pos (by simpa using h)] at hsplit
  exact hsplit

theorem seedRows_concat_of_mem (h : d.functionName ∈ s.knownAt ds ds.length)
    (clock : Nat → Instant) : s.seedRows (ds ++ [d]) clock = s.seedRows ds clock := by
  unfold seedRows
  rw [missing_concat_of_mem h]

theorem seedRows_concat_of_not_mem (h : d.functionName ∉ s.knownAt ds ds.length)
    (clock : Nat → Instant) :
    s.seedRows (ds ++ [d]) clock =
      s.seedRows ds clock ++
        [d.row (s.greatestId + (s.missing ds).length + 1) (clock ds.length)] := by
  unfold seedRows
  rw [missing_concat_of_not_mem h, List.zipIdx_append, List.map_append]
  simp

theorem seedReport_concat (s : JobStore) (ds : List JobDefinition) (d : JobDefinition) :
    s.seedReport (ds ++ [d]) =
      (s.seedReport ds).append
        (.ofOne d (decide (d.functionName ∉ s.knownAt ds ds.length))) := by
  have hpresent := s.filter_knownAt_concat ds d fun name known => name ∈ known
  change s.present (ds ++ [d]) = s.present ds ++ _ at hpresent
  unfold seedReport SeedReport.append
  by_cases h : d.functionName ∈ s.knownAt ds ds.length
  · rw [missing_concat_of_mem h, hpresent]
    simp [SeedReport.ofOne, h]
  · rw [missing_concat_of_not_mem h, hpresent]
    simp [SeedReport.ofOne, h]

end JobStore

section Whole

variable {moments : Nat → Moment} {n : Nat} {s t : JobStore} {ds : List JobDefinition}

/-- There are ids for all rows that are missing. -/
def JobStore.HasRoomFor (s : JobStore) (ds : List JobDefinition) : Prop :=
  s.greatestId + (s.missing ds).length ≤ Text.i32Max

theorem JobStore.length_missing_le (s : JobStore) (ds : List JobDefinition) :
    (s.missing ds).length ≤ ds.length := by
  unfold missing
  exact (List.length_filter_le _ _).trans_eq List.length_zipIdx

/-- What has come of a seeding of which nothing has failed: its report, the rows that came in, and
the greatest id that they took. -/
structure Seeded (moments : Nat → Moment) (n : Nat) (s : JobStore) (ds : List JobDefinition)
    (t : JobStore) : Prop where
  run : (seed ds).run moments n s = (some (.ok (s.seedReport ds)), t)
  rows : t = ⟨s.rows ++ s.seedRows ds fun i => (moments (n + i)).clock⟩
  greatestId : t.greatestId = s.greatestId + (s.missing ds).length

theorem Seeded.concat {d : JobDefinition} (h : Seeded moments n s ds t)
    (hall : Undisturbed moments n (ds ++ [d])) (hroom : s.HasRoomFor (ds ++ [d])) :
    Seeded moments n s (ds ++ [d]) (t.plant d (moments (n + ds.length)).clock) := by
  obtain ⟨hfirst, hlast⟩ := undisturbed_append_iff.mp hall
  obtain ⟨hlast, -⟩ := undisturbed_cons_iff.mp hlast
  have hknown : d.functionName ∈ t.functionNames ↔ d.functionName ∈ s.knownAt ds ds.length := by
    rw [mem_functionNames_run_seed hfirst h.run, JobStore.knownAt, List.take_length, List.mem_append]
  have hrun (htakes : t.Takes d) :
      (seed (ds ++ [d])).run moments n s =
        (some (.ok (s.seedReport (ds ++ [d]))), t.plant d (moments (n + ds.length)).clock) := by
    rw [run_seed_append hfirst h.run, run_seed_cons hlast htakes, JobStore.seedReport_concat]
    simp only [hknown]
    refine Prod.ext ?_ rfl
    change some (Except.ok (SeedReport.append _ (SeedReport.append _ SeedReport.empty))) = _
    simp [SeedReport.append, SeedReport.empty]
  -- The last definition is known by then, or its job takes the next id.
  by_cases hmem : d.functionName ∈ s.knownAt ds ds.length
  · have hplant := JobStore.plant_of_mem (hknown.mpr hmem) (moments (n + ds.length)).clock
    refine ⟨hrun (Or.inl (hknown.mpr hmem)), ?_, ?_⟩
    · rw [hplant, JobStore.seedRows_concat_of_mem hmem]
      exact h.rows
    · rw [hplant, JobStore.missing_concat_of_mem hmem]
      exact h.greatestId
  · have hnew := mt hknown.mp hmem
    have hplant := JobStore.plant_of_not_mem hnew (moments (n + ds.length)).clock
    have hgreatest := h.greatestId
    have hlength : (s.missing (ds ++ [d])).length = (s.missing ds).length + 1 := by
      rw [JobStore.missing_concat_of_not_mem hmem, List.length_append, List.length_singleton]
    unfold JobStore.HasRoomFor at hroom
    rw [hlength] at hroom
    refine ⟨hrun (Or.inr (by omega)), ?_, ?_⟩
    · rw [hplant, hgreatest, JobStore.seedRows_concat_of_not_mem hmem, ← List.append_assoc]
      exact congrArg (fun rows => JobStore.mk (rows ++ _)) (congrArg JobStore.rows h.rows)
    · have happend : (t.plant d (moments (n + ds.length)).clock).greatestId = t.greatestId + 1 := by
        unfold JobStore.plant
        rw [if_neg hnew]
        exact t.greatestId_append d.toNewJob _
      rw [happend, hgreatest, hlength]
      omega

theorem seeded_of_room (hroom : s.HasRoomFor ds) (h : Undisturbed moments n ds) :
    Seeded moments n s ds ((seed ds).run moments n s).2 := by
  -- By the last definition: whether it is missing depends on those before it.
  induction ds using List.reverseRecOn with
  | nil =>
    refine ⟨rfl, ?_, ?_⟩
    · change s = ⟨s.rows ++ []⟩
      rw [List.append_nil]
    · change s.greatestId = s.greatestId + (0 : Nat)
      omega
  | append_singleton ds d ih =>
    have hfirst : s.HasRoomFor ds := by
      unfold JobStore.HasRoomFor at hroom ⊢
      by_cases hmem : d.functionName ∈ s.knownAt ds ds.length
      · rw [JobStore.missing_concat_of_mem hmem] at hroom
        exact hroom
      · rw [JobStore.missing_concat_of_not_mem hmem, List.length_append] at hroom
        omega
    have hseeded := (ih hfirst (undisturbed_append_iff.mp h).1).concat h hroom
    rw [hseeded.run]
    exact hseeded

theorem run_seed_again {moments' : Nat → Moment} {n' : Nat} {report : SeedReport}
    (h : Undisturbed moments n ds) (hdone : (seed ds).run moments n s = (some (.ok report), t))
    {es : List JobDefinition} (hes : ∀ d ∈ es, d ∈ ds) (h' : Undisturbed moments' n' es) :
    (seed es).run moments' n' t = (some (.ok ⟨[], es.map (·.functionName)⟩), t) := by
  refine run_seed_of_present h' fun d hd => (mem_functionNames_run_seed h hdone).mpr (.inr ?_)
  exact List.mem_map_of_mem (hes d hd)

end Whole

theorem JobStore.length_missing_of_present {t : JobStore} {first : List JobDefinition}
    (h : ∀ d ∈ first, d.functionName ∈ t.functionNames) (second : List JobDefinition) :
    (t.missing (first ++ second)).length ≤ second.length := by
  have hfirst : (first.zipIdx.filter fun (d, i) =>
      decide (d.functionName ∉ t.knownAt (first ++ second) i)) = [] := by
    refine List.filter_eq_nil_iff.mpr fun ⟨d, i⟩ hd => ?_
    have hmem : d.functionName ∈ t.knownAt (first ++ second) i :=
      List.mem_append_left _ (h d (List.fst_mem_of_mem_zipIdx hd))
    simp [hmem]
  unfold missing
  rw [List.zipIdx_append, List.filter_append, hfirst, List.nil_append]
  exact (List.length_filter_le _ _).trans_eq List.length_zipIdx

theorem seeds_seed {s : JobStore} {ds : List JobDefinition}
    (hroom : s.greatestId + ds.length ≤ Text.i32Max) : Seeds (seed ds) ds s := by
  have hall : s.HasRoomFor ds := by
    have := s.length_missing_le ds
    unfold JobStore.HasRoomFor
    omega
  -- What the first `k` definitions come to, and the room that they leave.
  have htake {moments : Nat → Moment} {n k : Nat} (h : Undisturbed moments n (ds.take k)) :
      Seeded moments n s (ds.take k) ((seed (ds.take k)).run moments n s).2 := by
    have hlength := s.length_missing_le (ds.take k)
    have hle := List.length_take_le' k ds
    refine seeded_of_room ?_ h
    unfold JobStore.HasRoomFor
    omega
  refine ⟨fun moments n h => ?_, fun moments moments' n n' h h' => ?_,
    fun moments n k d e h hd hfault => ?_, fun moments moments' moments'' n n' n'' k h h' h'' => ?_⟩
  · have hseeded := seeded_of_room hall h
    rw [← hseeded.rows]
    exact hseeded.run
  · exact run_seed_again h (seeded_of_room hall h).run (fun _ hd => hd) h'
  · obtain ⟨hk, rfl⟩ := List.getElem?_eq_some_iff.mp hd
    have hsplit := run_seed_append h (htake h).run (ds.drop k)
    have hlength : (ds.take k).length = k := List.length_take_of_le (Nat.le_of_lt hk)
    rw [List.take_append_drop, List.drop_eq_getElem_cons hk, hlength,
      run_seed_of_fault hfault] at hsplit
    exact hsplit
  · intro t
    have hfirst := htake h
    have hknown : ∀ d ∈ ds.take k, d.functionName ∈ t.functionNames := fun d hd =>
      (mem_functionNames_run_seed h hfirst.run).mpr (.inr (List.mem_map_of_mem hd))
    have hrest : t.HasRoomFor ds := by
      have hmissing := JobStore.length_missing_of_present hknown (ds.drop k)
      have hbefore := s.length_missing_le (ds.take k)
      have hgreatest : t.greatestId = s.greatestId + _ := hfirst.greatestId
      have hlength : (ds.take k).length + (ds.drop k).length = ds.length := by
        rw [← List.length_append, List.take_append_drop]
      rw [List.take_append_drop] at hmissing
      unfold JobStore.HasRoomFor
      omega
    refine ⟨congrArg Prod.fst (seeded_of_room hrest h').run, ?_⟩
    -- Both ways, the first part leads to a store like `t`, and the rest goes on from there.
    rw [← List.take_append_drop k ds] at h' h'' ⊢
    obtain ⟨hfirst', hrest'⟩ := undisturbed_append_iff.mp h'
    obtain ⟨hfirst'', hrest''⟩ := undisturbed_append_iff.mp h''
    have hagain := run_seed_again h hfirst.run (fun _ hd => hd) hfirst'
    rw [run_seed_append hfirst' hagain, run_seed_append hfirst'' (htake hfirst'').run]
    exact alike_run_seed (alike_run_seed (.refl s) h hfirst'') hrest' hrest''

/-- Whatever is in a store whose ids leave room for the definitions (an empty one counts from 0): a
seeding puts in the missing ones and nothing else, seeding again changes nothing, and one that broke
off can be taken up. -/
theorem seed_adds_missing_jobs (s : JobStore) (ds : List JobDefinition)
    (hroom : s.greatestId < Text.i32Max - ds.length) :
    Seeds (seed ds) ds s ∧
      (ds = JobDefinition.initial ++ JobDefinition.maintenance → Seeds seedAll ds s) := by
  have hseeds : Seeds (seed ds) ds s := seeds_seed (by omega)
  refine ⟨hseeds, ?_⟩
  rintro rfl
  rw [seedAll_eq_seed]
  exact hseeds

theorem seed_adds_missing_jobs_beside_one_row :
    let row : Job := { (default : Job) with id := 5, functionName := "mail" }
    let definition (name : String) : JobDefinition := ⟨name, name, "daily", 3, 300, name⟩
    let s : JobStore := ⟨[row]⟩
    let ds := [definition "clean", definition "mail", definition "clean", definition "report"]
    let free : Nat → Moment := fun _ => ⟨.epoch, fun _ => none⟩
    s.greatestId < Text.i32Max - ds.length ∧
      ((seed ds).run free 0 s).1 = some (.ok ⟨["clean", "report"], ["mail", "clean"]⟩) ∧
      ((seed ds).run free 0 s).2.ids = [5, 6, 7] ∧
      ((seed ds).run free 0 ((seed ds).run free 0 s).2).2 = ((seed ds).run free 0 s).2 := by
  intro row definition s ds free
  have hroom : s.greatestId < Text.i32Max - ds.length := by decide
  have hfree : Undisturbed free 0 ds := fun _ _ _ => rfl
  obtain ⟨hseeds, -⟩ := seed_adds_missing_jobs s ds hroom
  have hrun := hseeds.whole free 0 hfree
  refine ⟨hroom, ?_, ?_, ?_⟩
  · rw [hrun]
    rfl
  · rw [hrun]
    rfl
  · rw [hseeds.again free free 0 0 hfree hfree]

end Cadence
