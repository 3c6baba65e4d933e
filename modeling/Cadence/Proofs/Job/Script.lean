import Cadence.Proofs.Job.Effect

/-!
# Courses of scripts

A script is followed in two ways: call by call with what comes of them, whoever else is at work on
the store (`Leads`), and alone on a store (`stores`).
-/

namespace Cadence

instance decEqExcept {ε α : Type} [DecidableEq ε] [DecidableEq α] : DecidableEq (Except ε α)
  | .ok a, .ok b => decidable_of_iff (a = b) ⟨congrArg Except.ok, Except.ok.inj⟩
  | .error a, .error b => decidable_of_iff (a = b) ⟨congrArg Except.error, Except.error.inj⟩
  | .ok _, .error _ => isFalse nofun
  | .error _, .ok _ => isFalse nofun

namespace StoreScript

variable {α β γ : Type}

/-! ## Laws -/

@[simp] theorem pure_eq_done (a : α) : (pure a : StoreScript α) = done a := rfl
@[simp] theorem bind_eq_bind (p : StoreScript α) (f : α → StoreScript β) : p >>= f = p.bind f := rfl
@[simp] theorem done_bind (a : α) (f : α → StoreScript β) : (done a).bind f = f a := rfl
@[simp] theorem broken_bind (f : α → StoreScript β) :
    (broken : StoreScript α).bind f = broken := rfl
@[simp] theorem call_bind (c : StoreCall) (next : Except ServiceError c.Reply → StoreScript α)
    (f : α → StoreScript β) : (call c next).bind f = call c fun r => (next r).bind f := rfl
@[simp] theorem send_bind (c : StoreCall) (f : Except ServiceError c.Reply → StoreScript β) :
    (send c).bind f = call c f := rfl

@[simp] theorem resume_some {c : StoreCall} (next : Except ServiceError c.Reply → StoreScript α)
    (r : Except ServiceError c.Reply) : resume next (some r) = next r := rfl
@[simp] theorem resume_none {c : StoreCall} (next : Except ServiceError c.Reply → StoreScript α) :
    resume next none = broken := rfl

theorem resume_bind {c : StoreCall} (next : Except ServiceError c.Reply → StoreScript α)
    (f : α → StoreScript β) (outcome : c.Outcome) :
    resume (fun r => (next r).bind f) outcome = (resume next outcome).bind f := by
  cases outcome <;> rfl

theorem bind_assoc (p : StoreScript α) (f : α → StoreScript β) (g : β → StoreScript γ) :
    (p.bind f).bind g = p.bind fun a => (f a).bind g := by
  induction p with
  | done a => rfl
  | broken => rfl
  | call c next ih =>
    rw [call_bind, call_bind, call_bind]
    congr 1
    funext r
    exact ih r

@[simp] theorem bind_done (p : StoreScript α) : p.bind done = p := by
  induction p with
  | done a => rfl
  | broken => rfl
  | call c next ih =>
    rw [call_bind]
    congr 1
    funext r
    exact ih r

/-- The answer of a script that is done. -/
def answer? : StoreScript α → Option α
  | done a => some a
  | broken | call .. => none

/-- The script makes no more calls. -/
def HasEnded : StoreScript α → Prop
  | done _ | broken => True
  | call .. => False

instance : (p : StoreScript α) → Decidable p.HasEnded
  | done _ | broken => isTrue trivial
  | call .. => isFalse id

theorem answer?_eq_some_iff {p : StoreScript α} {a : α} : p.answer? = some a ↔ p = done a := by
  cases p <;> simp [answer?]

theorem HasEnded.eq_broken {p : StoreScript α} (h : p.HasEnded) (hnone : p.answer? = none) :
    p = broken := by
  cases p with
  | done a => cases hnone
  | broken => rfl
  | call c next => exact h.elim

theorem HasEnded.bind {p : StoreScript α} (hp : p.HasEnded) {f : α → StoreScript β}
    (hf : ∀ a, (f a).HasEnded) : (p.bind f).HasEnded := by
  cases p with
  | done a => exact hf a
  | broken => exact trivial
  | call c next => exact hp.elim

@[simp] theorem run_done (moments : Nat → Moment) (n : Nat) (s : JobStore) (a : α) :
    (done a).run moments n s = (some a, s) := rfl
@[simp] theorem run_broken (moments : Nat → Moment) (n : Nat) (s : JobStore) :
    (broken : StoreScript α).run moments n s = (none, s) := rfl

theorem hasEnded_ofOption (a? : Option α) : (ofOption a?).HasEnded := by
  cases a? <;> exact trivial

theorem HasEnded.run_eq {p : StoreScript α} (h : p.HasEnded) (moments : Nat → Moment) (n : Nat)
    (s : JobStore) : p.run moments n s = (p.answer?, s) := by
  cases p with
  | done a => rfl
  | broken => rfl
  | call c next => exact h.elim

theorem run_call (moments : Nat → Moment) (n : Nat) (s : JobStore) (c : StoreCall)
    (next : Except ServiceError c.Reply → StoreScript α) :
    (call c next).run moments n s =
      (resume next ((moments n).perform s c).1).run moments (n + 1)
        ((moments n).perform s c).2 := by
  rw [run]
  split
  · rename_i r t h
    rw [h, resume_some]
  · rename_i t h
    rw [h, resume_none, run_broken]

theorem run_call_of_eq {moments : Nat → Moment} {n : Nat} {s s' : JobStore} {c : StoreCall}
    {outcome : c.Outcome} (h : (moments n).perform s c = (outcome, s'))
    (next : Except ServiceError c.Reply → StoreScript α) :
    (call c next).run moments n s = (resume next outcome).run moments (n + 1) s' := by
  rw [run_call, h]

theorem run_bind_done (p : StoreScript α) (f : α → β)
    (moments : Nat → Moment) (n : Nat) (s : JobStore) :
    (p.bind fun a => done (f a)).run moments n s =
      ((p.run moments n s).1.map f, (p.run moments n s).2) := by
  induction p generalizing n s with
  | done a => rfl
  | broken => rfl
  | call c next ih =>
    rw [call_bind, run_call, run_call, resume_bind]
    cases ((moments n).perform s c).1 with
    | some r => exact ih r _ _
    | none => rfl

/-! ## All calls of a script -/

/-- Whatever it is answered, the script makes only calls with the property, and it breaks off only
where one of them does. -/
def Only (P : StoreCall → Prop) : StoreScript α → Prop
  | done _ => True
  | broken => False
  | call c next => P c ∧ ∀ r, (next r).Only P

theorem Only.bind {P : StoreCall → Prop} {p : StoreScript α} {f : α → StoreScript β}
    (hp : p.Only P) (hf : ∀ a, (f a).Only P) : (p.bind f).Only P := by
  induction p with
  | done a => exact hf a
  | broken => exact hp.elim
  | call c next ih => exact ⟨hp.1, fun r => ih r (hp.2 r)⟩

theorem Only.mono {P Q : StoreCall → Prop} (hPQ : ∀ c, P c → Q c) {p : StoreScript α}
    (hp : p.Only P) : p.Only Q := by
  induction p with
  | done a => exact trivial
  | broken => exact hp.elim
  | call c next ih => exact ⟨hPQ c hp.1, fun r => ih r (hp.2 r)⟩

/-- The stores that a script goes through when it runs alone, the first and the last included. -/
def stores (moments : Nat → Moment) : Nat → JobStore → StoreScript α → List JobStore
  | _, s, done _ | _, s, broken => [s]
  | n, s, call c next =>
    match (moments n).perform s c with
    | (some r, s') => s :: (next r).stores moments (n + 1) s'
    | (none, s') => [s, s']

theorem stores_call (moments : Nat → Moment) (n : Nat) (s : JobStore) (c : StoreCall)
    (next : Except ServiceError c.Reply → StoreScript α) :
    (call c next).stores moments n s =
      s :: (resume next ((moments n).perform s c).1).stores moments (n + 1)
        ((moments n).perform s c).2 := by
  rw [stores]
  split
  · rename_i r t h
    rw [h, resume_some]
  · rename_i t h
    rw [h, resume_none, stores]

theorem head_mem_stores (p : StoreScript α) (moments : Nat → Moment) (n : Nat)
    (s : JobStore) : s ∈ p.stores moments n s := by
  cases p with
  | done a => exact List.mem_singleton_self s
  | broken => exact List.mem_singleton_self s
  | call c next =>
    rw [stores_call]
    exact List.mem_cons_self

theorem run_mem_stores (moments : Nat → Moment) (n : Nat) (s : JobStore) (p : StoreScript α) :
    (p.run moments n s).2 ∈ p.stores moments n s := by
  induction p generalizing n s with
  | done a => exact List.mem_singleton_self s
  | broken => exact List.mem_singleton_self s
  | call c next ih =>
    rw [run_call, stores_call]
    refine List.mem_cons_of_mem s ?_
    cases ((moments n).perform s c).1 with
    | some r => exact ih r _ _
    | none => exact List.mem_singleton_self _

theorem Only.keeps {P : StoreCall → Prop} {I : JobStore → Prop}
    (hstep : ∀ {s x t}, Effect s x t → P x.call → I s → I t) {p : StoreScript α} (hp : p.Only P)
    (moments : Nat → Moment) (n : Nat) {s : JobStore} (hs : I s) :
    ∀ t ∈ p.stores moments n s, I t := by
  induction p generalizing n s with
  | done a =>
    intro t ht
    rw [List.mem_singleton.mp ht]
    exact hs
  | broken => exact hp.elim
  | call c next ih =>
    have hnext : I ((moments n).perform s c).2 := hstep ((moments n).effect_perform s c) hp.1 hs
    rw [stores_call]
    intro t ht
    rcases List.mem_cons.mp ht with rfl | ht
    · exact hs
    · cases hreply : ((moments n).perform s c).1 with
      | some r =>
        rw [hreply, resume_some] at ht
        exact ih r (hp.2 r) (n + 1) hnext t ht
      | none =>
        rw [hreply] at ht
        rw [List.mem_singleton.mp ht]
        exact hnext

theorem Only.keeps_run {P : StoreCall → Prop} {I : JobStore → Prop}
    (hstep : ∀ {s x t}, Effect s x t → P x.call → I s → I t) {p : StoreScript α} (hp : p.Only P)
    (moments : Nat → Moment) (n : Nat) {s : JobStore} (hs : I s) : I (p.run moments n s).2 :=
  hp.keeps hstep moments n hs _ (run_mem_stores moments n s p)

/-! ## Calls and their outcomes -/

/-- A script makes some calls, which come to their outcomes, and is left with the rest of its
course. -/
inductive Leads : StoreScript α → List Exchange → StoreScript α → Prop
  | nil (p : StoreScript α) : Leads p [] p
  | cons {c : StoreCall} {next : Except ServiceError c.Reply → StoreScript α}
      (outcome : c.Outcome) {xs : List Exchange} {q : StoreScript α}
      (rest : Leads (resume next outcome) xs q) : Leads (call c next) (⟨c, outcome⟩ :: xs) q

theorem leads_done_iff {a b : α} {xs : List Exchange} :
    Leads (done a) xs (done b) ↔ xs = [] ∧ a = b := by
  constructor
  · intro h
    cases h
    exact ⟨rfl, rfl⟩
  · rintro ⟨rfl, rfl⟩
    exact .nil _

theorem eq_of_leads_broken {xs : List Exchange} {q : StoreScript α} (h : Leads broken xs q) :
    xs = [] ∧ q = broken := by
  cases h
  exact ⟨rfl, rfl⟩

theorem leads_call_iff {c : StoreCall} {next : Except ServiceError c.Reply → StoreScript α}
    {xs : List Exchange} {b : α} :
    Leads (call c next) xs (done b) ↔
      ∃ r ys, xs = ⟨c, some r⟩ :: ys ∧ Leads (next r) ys (done b) := by
  constructor
  · intro h
    cases h with
    | cons outcome rest =>
      cases outcome with
      | some r => exact ⟨r, _, rfl, rest⟩
      | none => cases (eq_of_leads_broken rest).2
  · rintro ⟨r, ys, rfl, h⟩
    exact .cons (some r) h

theorem leads_bind_iff {p : StoreScript α} {f : α → StoreScript β} {xs : List Exchange} {b : β} :
    Leads (p.bind f) xs (done b) ↔
      ∃ a ys zs, xs = ys ++ zs ∧ Leads p ys (done a) ∧ Leads (f a) zs (done b) := by
  induction p generalizing xs with
  | done a =>
    simp only [done_bind, leads_done_iff]
    constructor
    · intro h
      exact ⟨a, [], xs, rfl, ⟨rfl, rfl⟩, h⟩
    · rintro ⟨a', ys, zs, rfl, ⟨rfl, rfl⟩, h⟩
      exact h
  | broken =>
    constructor
    · intro h
      cases (eq_of_leads_broken h).2
    · rintro ⟨a, ys, zs, rfl, h, -⟩
      cases (eq_of_leads_broken h).2
  | call c next ih =>
    simp only [call_bind, leads_call_iff, ih]
    constructor
    · rintro ⟨r, xs, rfl, a, ys, zs, rfl, hp, hf⟩
      exact ⟨a, _, zs, rfl, ⟨r, ys, rfl, hp⟩, hf⟩
    · rintro ⟨a, ys, zs, rfl, ⟨r, ys, rfl, hp⟩, hf⟩
      exact ⟨r, ys ++ zs, rfl, a, ys, zs, rfl, hp, hf⟩

theorem Leads.answered {p q : StoreScript α} {xs : List Exchange} (h : Leads p xs q)
    (hq : q ≠ broken) : ∀ x ∈ xs, x.outcome ≠ none := by
  induction h with
  | nil p =>
    intro x hx
    cases hx
  | cons outcome rest ih =>
    intro x hx
    rcases List.mem_cons.mp hx with rfl | hx
    · cases outcome with
      | some r => exact Option.some_ne_none r
      | none => exact absurd (eq_of_leads_broken rest).2 hq
    · exact ih hq x hx

/-- A script breaks off at a call that does. -/
theorem Only.exists_broken_call {P : StoreCall → Prop} {p : StoreScript α} (hp : p.Only P)
    {xs : List Exchange} (h : Leads p xs broken) : ∃ x ∈ xs, P x.call ∧ x.outcome = none := by
  generalize hq : (broken : StoreScript α) = q at h
  induction h with
  | nil p =>
    rw [← hq] at hp
    exact hp.elim
  | @cons c next outcome xs q rest ih =>
    cases outcome with
    | none => exact ⟨_, List.mem_cons_self, hp.1, rfl⟩
    | some r =>
      obtain ⟨x, hx, hbroken⟩ := ih (hp.2 r) hq
      exact ⟨x, List.mem_cons_of_mem _ hx, hbroken⟩

theorem Only.leads {P : StoreCall → Prop} {p q : StoreScript α} (hp : p.Only P)
    {xs : List Exchange} (h : Leads p xs q) : ∀ x ∈ xs, P x.call := by
  induction h with
  | nil p =>
    intro x hx
    cases hx
  | cons outcome rest ih =>
    intro x hx
    rcases List.mem_cons.mp hx with rfl | hrest
    · exact hp.1
    · cases outcome with
      | some r => exact ih (hp.2 r) x hrest
      | none =>
        rw [(eq_of_leads_broken rest).1] at hrest
        cases hrest

end StoreScript

end Cadence
