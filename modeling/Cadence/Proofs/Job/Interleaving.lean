import Cadence.Proofs.Job.Script

/-!
# Scripts side by side

Scripts at work on one store, in any order of their calls. The log of a run is read in two ways: the
calls of all, in their order, are the history of the store; those of one script are its course.
-/

namespace Cadence

open StoreScript

/-! ## Histories -/

/-- The effects of calls, one after the other. -/
inductive History : JobStore → List Exchange → JobStore → Prop
  | nil (s : JobStore) : History s [] s
  | cons {s t u : JobStore} {x : Exchange} {xs : List Exchange} (first : Effect s x t)
      (rest : History t xs u) : History s (x :: xs) u

namespace History

variable {s u : JobStore} {xs ys : List Exchange}

theorem append_iff : History s (xs ++ ys) u ↔ ∃ t, History s xs t ∧ History t ys u := by
  induction xs generalizing s with
  | nil =>
    constructor
    · intro h
      exact ⟨s, .nil s, h⟩
    · rintro ⟨t, hnil, h⟩
      cases hnil
      exact h
  | cons x xs ih =>
    constructor
    · intro h
      cases h with
      | cons first rest =>
        obtain ⟨t, hxs, hys⟩ := ih.mp rest
        exact ⟨t, .cons first hxs, hys⟩
    · rintro ⟨t, hxs, hys⟩
      cases hxs with
      | cons first rest => exact .cons first (ih.mpr ⟨t, rest, hys⟩)

theorem cons_iff {x : Exchange} :
    History s (x :: xs) u ↔ ∃ t, Effect s x t ∧ History t xs u := by
  constructor
  · intro h
    cases h with
    | cons first rest => exact ⟨_, first, rest⟩
  · rintro ⟨t, first, rest⟩
    exact .cons first rest

theorem keeps {P : Exchange → Prop} {I : JobStore → Prop}
    (hstep : ∀ {s x t}, Effect s x t → P x → I s → I t) (h : History s xs u)
    (hall : ∀ x ∈ xs, P x) (hs : I s) : I u := by
  induction h with
  | nil s => exact hs
  | cons first _ ih =>
    apply ih fun x hx => hall x (List.mem_cons_of_mem _ hx)
    exact hstep first (hall _ List.mem_cons_self) hs

end History

/-! ## Runs -/

/-- Scripts at work on one store. -/
structure SharedStore (α : Type) where
  store : JobStore
  scripts : List (StoreScript α)

namespace SharedStore

variable {α : Type}

/-- The script with a number makes its next call. -/
def step (f : SharedStore α) (i : Nat) (m : Moment) : SharedStore α :=
  match f.scripts[i]? with
  | none => f
  | some p =>
    let (q, s) := p.step m f.store
    ⟨s, f.scripts.set i q⟩

/-- The call that the script with a number makes, and its outcome. -/
def exchange? (f : SharedStore α) (i : Nat) (m : Moment) : Option Exchange :=
  match f.scripts[i]? with
  | some (.call c _) => some ⟨c, (m.perform f.store c).1⟩
  | _ => none

/-- The scripts make their calls in the order of a schedule. -/
def run (f : SharedStore α) : List (Nat × Moment) → SharedStore α
  | [] => f
  | (i, m) :: rest => (f.step i m).run rest

/-- The answers of the scripts that are done. -/
def answers? (f : SharedStore α) : List (Option α) := f.scripts.map answer?

/-- No script makes any more calls. -/
def HasEnded (f : SharedStore α) : Prop := ∀ p ∈ f.scripts, p.HasEnded

instance (f : SharedStore α) : Decidable f.HasEnded :=
  inferInstanceAs (Decidable (∀ p ∈ f.scripts, p.HasEnded))

/-- All calls of a run, each with the number of its script. -/
def log (f : SharedStore α) : List (Nat × Moment) → List (Nat × Exchange)
  | [] => []
  | (i, m) :: rest => ((f.exchange? i m).map (i, ·)).toList ++ (f.step i m).log rest

/-- The calls of one script. -/
def own (i : Nat) (log : List (Nat × Exchange)) : List Exchange :=
  (log.filter (·.1 = i)).map (·.2)

/-! ## One step -/

/-- A step is a call of a script that has not ended, or nothing. -/
theorem step_cases (f : SharedStore α) (i : Nat) (m : Moment) :
    (∃ c next, f.scripts[i]? = some (.call c next) ∧
      f.exchange? i m = some ⟨c, (m.perform f.store c).1⟩ ∧
      f.step i m =
        ⟨(m.perform f.store c).2, f.scripts.set i (resume next (m.perform f.store c).1)⟩) ∨
    f.exchange? i m = none ∧ f.step i m = f := by
  unfold exchange? step
  cases hscript : f.scripts[i]? with
  | none => exact Or.inr ⟨rfl, rfl⟩
  | some p =>
    have hset : f.scripts.set i p = f.scripts := by
      obtain ⟨hi, hget⟩ := List.getElem?_eq_some_iff.mp hscript
      rw [← hget, List.set_getElem_self]
    cases p with
    | call c next => exact Or.inl ⟨c, next, rfl, rfl, rfl⟩
    | done a =>
      refine Or.inr ⟨rfl, ?_⟩
      simp only [StoreScript.step, hset]
    | broken =>
      refine Or.inr ⟨rfl, ?_⟩
      simp only [StoreScript.step, hset]

/-! ## The two readings of the log -/

theorem history_run (f : SharedStore α) (schedule : List (Nat × Moment)) :
    History f.store ((f.log schedule).map (·.2)) (f.run schedule).store := by
  induction schedule generalizing f with
  | nil => exact .nil f.store
  | cons e rest ih =>
    obtain ⟨i, m⟩ := e
    have hrest := ih (f.step i m)
    unfold log run
    rcases f.step_cases i m with ⟨c, next, -, hexchange, hstep⟩ | ⟨hexchange, hstep⟩
    · rw [hexchange]
      rw [hstep] at hrest ⊢
      exact .cons (m.effect_perform f.store c) hrest
    · rw [hexchange]
      rw [hstep] at hrest ⊢
      exact hrest

theorem own_cons (i k : Nat) (x : Exchange) (log : List (Nat × Exchange)) :
    own i ((k, x) :: log) = if k = i then x :: own i log else own i log := by
  unfold own
  by_cases h : k = i <;> simp [h]

theorem own_append (i : Nat) (log log' : List (Nat × Exchange)) :
    own i (log ++ log') = own i log ++ own i log' := by
  unfold own
  rw [List.filter_append, List.map_append]

theorem mem_own {i : Nat} {x : Exchange} {log : List (Nat × Exchange)} :
    x ∈ own i log ↔ (i, x) ∈ log := by
  simp [own]

theorem leads_run {f : SharedStore α} {i : Nat} {p : StoreScript α} (h : f.scripts[i]? = some p)
    (schedule : List (Nat × Moment)) :
    ∃ q, (f.run schedule).scripts[i]? = some q ∧ Leads p (own i (f.log schedule)) q := by
  induction schedule generalizing f p with
  | nil => exact ⟨p, h, .nil p⟩
  | cons e rest ih =>
    obtain ⟨k, m⟩ := e
    unfold log run
    rcases f.step_cases k m with ⟨c, next, hcall, hexchange, hstep⟩ | ⟨hexchange, hstep⟩
    · rw [hexchange, hstep]
      simp only [Option.map_some, Option.toList_some, List.singleton_append, own_cons]
      by_cases hk : k = i
      · -- The script's own step is the first call of its course.
        subst hk
        rw [h, Option.some.injEq] at hcall
        subst hcall
        have hlt := (List.getElem?_eq_some_iff.mp h).1
        have hnext : (f.scripts.set k (resume next (m.perform f.store c).1))[k]? =
            some (resume next (m.perform f.store c).1) := List.getElem?_set_self hlt
        obtain ⟨q, hq, hleads⟩ := ih (f := ⟨(m.perform f.store c).2, _⟩) hnext
        rw [if_pos rfl]
        exact ⟨q, hq, .cons _ hleads⟩
      · have hsame : (f.scripts.set k (resume next (m.perform f.store c).1))[i]? = some p := by
          rw [List.getElem?_set_ne hk]
          exact h
        rw [if_neg hk]
        exact ih (f := ⟨(m.perform f.store c).2, _⟩) hsame
    · rw [hexchange, hstep]
      exact ih h

theorem leads_of_answers? {f : SharedStore α} {schedule : List (Nat × Moment)} {i : Nat}
    {p : StoreScript α} {a : α} (h : f.scripts[i]? = some p)
    (ha : (f.run schedule).answers?[i]? = some (some a)) :
    Leads p (own i (f.log schedule)) (done a) := by
  obtain ⟨q, hq, hleads⟩ := leads_run h schedule
  unfold answers? at ha
  rw [List.getElem?_map, hq, Option.map_some, Option.some.injEq, answer?_eq_some_iff] at ha
  exact ha ▸ hleads

theorem leads_of_broken {f : SharedStore α} {schedule : List (Nat × Moment)} {i : Nat}
    {p : StoreScript α} (h : f.scripts[i]? = some p) (hended : (f.run schedule).HasEnded)
    (hnone : (f.run schedule).answers?[i]? = some none) :
    Leads p (own i (f.log schedule)) broken := by
  obtain ⟨q, hq, hleads⟩ := leads_run h schedule
  unfold answers? at hnone
  rw [List.getElem?_map, hq, Option.map_some, Option.some.injEq] at hnone
  exact (hended q (List.mem_of_getElem? hq)).eq_broken hnone ▸ hleads

theorem length_scripts_step (f : SharedStore α) (i : Nat) (m : Moment) :
    (f.step i m).scripts.length = f.scripts.length := by
  rcases f.step_cases i m with ⟨c, next, -, -, hstep⟩ | ⟨-, hstep⟩
  · rw [hstep, List.length_set]
  · rw [hstep]

theorem length_scripts_run (f : SharedStore α) (schedule : List (Nat × Moment)) :
    (f.run schedule).scripts.length = f.scripts.length := by
  induction schedule generalizing f with
  | nil => rfl
  | cons e rest ih =>
    unfold run
    rw [ih, length_scripts_step]

theorem lt_of_mem_log {f : SharedStore α} {schedule : List (Nat × Moment)} {i : Nat} {x : Exchange}
    (h : (i, x) ∈ f.log schedule) : i < f.scripts.length := by
  induction schedule generalizing f with
  | nil => cases h
  | cons e rest ih =>
    obtain ⟨k, m⟩ := e
    unfold log at h
    rcases List.mem_append.mp h with h | h
    · rcases f.step_cases k m with ⟨c, next, hcall, hexchange, -⟩ | ⟨hexchange, -⟩
      · rw [hexchange] at h
        simp only [Option.map_some, Option.toList_some, List.mem_singleton, Prod.mk.injEq] at h
        rw [h.1]
        exact (List.getElem?_eq_some_iff.mp hcall).1
      · rw [hexchange] at h
        cases h
    · have := ih h
      rwa [length_scripts_step] at this

end SharedStore

end Cadence
