import Cadence.Proofs.Http.Respond
import Cadence.Proofs.Json.Text
import Cadence.Proofs.Text.Lookup

/-!
# The envelope of errors

Whatever is chosen as the reply to a request, an error leaves the service as a JSON object with a
code, a message and the id of the request, and everything else leaves it as it is. A body is what a
client makes of it, whatever coding it was sent in.
-/

namespace Cadence

variable {α β : Type}

/-! ## Errors that tell something -/

/-- The message for the client is not empty. -/
def ServiceError.Tells (e : ServiceError) : Prop := (ErrorBody.ofError e).message ≠ ""

instance (e : ServiceError) : Decidable e.Tells :=
  inferInstanceAs (Decidable ((ErrorBody.ofError e).message ≠ ""))

/-- An error that tells something, or a value with the property. -/
def Told (P : α → Prop) : Except ServiceError α → Prop
  | .error e => e.Tells
  | .ok a => P a

namespace Told

variable {P : α → Prop} {Q : β → Prop} {x : Except ServiceError α}

theorem bind (hx : Told P x) {f : α → Except ServiceError β} (hf : ∀ a, P a → Told Q (f a)) :
    Told Q (x >>= f) := by
  cases x with
  | error e => exact hx
  | ok a => exact hf a hx

theorem map (hx : Told P x) {f : α → β} (hf : ∀ a, P a → Q (f a)) : Told Q (x.map f) := by
  cases x with
  | error e => exact hx
  | ok a => exact hf a hx

theorem perform {m : Moment} (hfault : ∀ c e, m.fault? c = some e → e.Tells) (s : JobStore)
    {c : StoreCall} {r : Except ServiceError c.Reply} (h : (m.perform s c).1 = some r) :
    Told (fun _ => True) r := by
  have hnotFound (id : Int) : (JobStore.notFound id).Tells := by
    simp [ServiceError.Tells, JobStore.notFound, ErrorBody.ofError]
  cases r with
  | ok a => trivial
  | error e =>
    cases hc : m.fault? c with
    | some e' =>
      rw [Moment.perform_of_fault hc] at h
      cases h
      exact hfault c e hc
    | none =>
      have heffect := m.effect_perform s c
      rw [Moment.perform_of_no_fault hc] at h
      cases c with
      | list | listActive => cases h
      | recordExecution id record =>
        simp only [StoreCall.perform] at h
        split at h
        · cases h
          exact hnotFound id
        · split at h <;> cases h
      | recordFailure id result =>
        simp only [StoreCall.perform] at h
        split at h
        · cases h
          exact hnotFound id
        · split at h <;> cases h
      | insertIfAbsent job =>
        simp only [StoreCall.perform] at h
        split at h
        · cases h
        · split at h <;> cases h

end Told

/-! ## Scripts -/

namespace StoreScript

/-- If all errors that it is answered tell something, the script has the property when it is done.
-/
def Ends (P : α → Prop) : StoreScript α → Prop
  | done a => P a
  | broken => True
  | call _ next => ∀ r, Told (fun _ => True) r → (next r).Ends P

namespace Ends

variable {P : α → Prop} {Q : β → Prop} {p : StoreScript α}

theorem trivial (p : StoreScript α) : p.Ends fun _ => True := by
  induction p with
  | done a => exact True.intro
  | broken => exact True.intro
  | call c next ih => exact fun r _ => ih r

theorem bind (hp : p.Ends P) {f : α → StoreScript β} (hf : ∀ a, P a → (f a).Ends Q) :
    (p.bind f).Ends Q := by
  induction p with
  | done a => exact hf a hp
  | broken => exact True.intro
  | call c next ih => exact fun r hr => ih r (hp r hr)

theorem ofOption {a? : Option α} (h : ∀ a, a? = some a → P a) :
    (StoreScript.ofOption a?).Ends P := by
  cases a? with
  | some a => exact h a rfl
  | none => exact True.intro

theorem run (hp : p.Ends P) {moments : Nat → Moment}
    (hfaults : ∀ k c e, (moments k).fault? c = some e → e.Tells) (n : Nat) (s : JobStore) :
    ∀ a, (p.run moments n s).1 = some a → P a := by
  induction p generalizing n s with
  | done a =>
    rintro a' ⟨⟩
    exact hp
  | broken => exact fun a h => nomatch h
  | call c next ih =>
    rw [run_call]
    cases hperform : ((moments n).perform s c).1 with
    | none => exact fun a h => nomatch h
    | some r => exact ih r (hp r (Told.perform (hfaults n) s hperform)) (n + 1) _

end Ends

end StoreScript

open StoreScript (Ends)

namespace Http

variable {s : Service} {a : Arrival} {r : Request}

/-! ## Faults of requests -/

theorem fits_errorBody {b : ErrorBody} {depth : Nat}
    (h : ∀ v, b.details = some v → v.Fits depth) : b.toJson.Fits (depth + 1) := by
  refine Json.fits_present fun m hm v hv => ?_
  simp only [List.mem_cons, List.not_mem_nil, or_false] at hm
  obtain rfl | rfl | rfl | rfl := hm
  · cases hv
    exact Json.fits_str depth _
  · cases hv
    exact Json.fits_str depth _
  · exact h v hv
  · obtain ⟨id, -, rfl⟩ := Option.map_eq_some_iff.mp hv
    exact Json.fits_str depth id

theorem fits_texts (members : List (String × String)) (depth : Nat) :
    (ErrorBody.texts members).Fits (depth + 1) := by
  unfold ErrorBody.texts Json.Fits
  intro m hm
  obtain ⟨⟨name, text⟩, -, rfl⟩ := List.mem_map.mp hm
  exact Json.fits_str depth text

theorem fits_details (e : ServiceError) {v : Json} (h : (ErrorBody.ofError e).details = some v)
    (depth : Nat) : v.Fits (depth + 3) := by
  cases e with
  | validationErrors errors =>
    cases h
    simp only [Json.Fits, List.forall_mem_cons, List.forall_mem_map]
    exact ⟨fun e _ => fits_texts _ depth, nofun⟩
  | badRequest | unauthorized | forbidden | connectionPool | internal => cases h
  | notFound | duplicate | validation | database | configuration =>
    cases h
    exact fits_texts _ (depth + 2)

end Http

end Cadence
