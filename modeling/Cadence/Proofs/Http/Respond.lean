import Cadence.Http.Service
import Cadence.Proofs.Job.Script
import Cadence.Proofs.Text.Lookup
import Mathlib.Data.List.TakeWhile

/-!
# Replies and responses

A request is answered by the reply of its place, which then becomes a response; the store plays no
part in that. A client has the response once it has undone the coding.
-/

namespace Cadence.Http

variable {s : Service} {a : Arrival} {r : Request}

theorem path_of_plain (h : (r.target.toList.all fun c => c ≠ '?' && c ≠ '#') = true) :
    r.path = r.target := by
  unfold Request.path
  rw [List.takeWhile_eq_self_iff.mpr (List.all_eq_true.mp h), String.ofList_toList]

/-- The response that the reply to a request becomes. -/
def finished (s : Service) (a : Arrival) (r : Request) (reply : Reply) : Response :=
  let id := requestId a r
  let response := (Envelope.enclose (some id) reply).withHeader "x-request-id" id
  let coded := s.coding.apply r.headers response
  withoutBody r.method (withAllow (Endpoint.ofPath? s.docs r.path) r.method (withOrigin coded))

theorem respond_of_place {e : Endpoint} (hplace : Endpoint.ofPath? s.docs r.path = some e)
    (hmethod : r.method ≠ "OPTIONS") :
    respond s a r = (replyOf s a r e).bind fun reply => .done (finished s a r reply) := by
  unfold respond finished
  simp only [hplace, if_neg hmethod]
  rfl

/-- Nothing but the reply of its place has to do with the store. -/
theorem respond_run {e : Endpoint} (hplace : Endpoint.ofPath? s.docs r.path = some e)
    (hmethod : r.method ≠ "OPTIONS") (moments : Nat → Moment) (n : Nat) (store : JobStore) :
    (respond s a r).run moments n store =
      (((replyOf s a r e).run moments n store).1.map (finished s a r),
        ((replyOf s a r e).run moments n store).2) := by
  rw [respond_of_place hplace hmethod, StoreScript.run_bind_done]

/-! ## Headers -/

theorem lookup_withHeader (response : Response) (other value name : String) :
    (response.withHeader other value).headers.lookup name =
      if name = other then some value else response.headers.lookup name := by
  unfold Response.withHeader
  rw [List.lookup_append, lookup_filter (· != other), List.lookup_cons]
  by_cases h : name = other
  · simp [h]
  · simp [h, beq_false_of_ne h]

theorem lookup_withOrigin (response : Response) {name : String}
    (h : name ≠ "access-control-allow-origin") :
    (withOrigin response).headers.lookup name = response.headers.lookup name := by
  unfold withOrigin
  rw [lookup_withHeader, if_neg h]

theorem lookup_withAllow (e? : Option Endpoint) (method : String) (response : Response)
    {name : String} (h : name ≠ "allow") :
    (withAllow e? method response).headers.lookup name = response.headers.lookup name := by
  unfold withAllow
  split
  · split
    · rfl
    · rw [lookup_withHeader, if_neg h]
  · rfl

theorem withAllow_status (e? : Option Endpoint) (method : String) (response : Response) :
    (withAllow e? method response).status = response.status ∧
      (withAllow e? method response).body = response.body := by
  unfold withAllow
  split
  · split <;> exact ⟨rfl, rfl⟩
  · exact ⟨rfl, rfl⟩

/-! ## Coding -/

namespace Coding

variable {c : Coding} {headers : List Header} {response : Response}

theorem apply_status : (c.apply headers response).status = response.status := by
  unfold apply
  split <;> rfl

theorem read?_of_coded (headers : List Header) (response : Response)
    (hplain : response.headers.lookup "content-encoding" = none)
    {outer : Response} (hbody : outer.body = (c.apply headers response).body)
    (hcoding : outer.headers.lookup "content-encoding" =
      (c.apply headers response).headers.lookup "content-encoding") :
    c.read? outer = some { outer with body := response.body } := by
  unfold read?
  cases hchoose : c.choose headers response with
  | none =>
    have happly : c.apply headers response = response := by
      unfold apply
      rw [hchoose]
    rw [happly] at hbody hcoding
    rw [hcoding, hplain, ← hbody]
  | some name =>
    have happly : c.apply headers response =
        { response with body := c.encode name response.body }.withHeader
          "content-encoding" name := by
      unfold apply
      rw [hchoose]
    rw [happly, lookup_withHeader, if_pos rfl] at hcoding
    rw [happly] at hbody
    rw [hcoding, hbody]
    exact congrArg (Option.map _) (c.decode?_encode name response.body)

end Coding

/-! ## Finished responses -/

section

variable {reply : Reply}

theorem finished_of_ne_head (h : r.method ≠ "HEAD") (reply : Reply) :
    finished s a r reply =
      withAllow (Endpoint.ofPath? s.docs r.path) r.method (withOrigin (s.coding.apply r.headers
        ((Envelope.enclose (some (requestId a r)) reply).withHeader "x-request-id"
          (requestId a r)))) :=
  if_neg h

theorem finished_status (h : r.method ≠ "HEAD") (reply : Reply) :
    (finished s a r reply).status = (Envelope.enclose (some (requestId a r)) reply).status := by
  rw [finished_of_ne_head h, (withAllow_status _ _ _).1]
  exact Coding.apply_status

/-- A client has the response in the envelope, but for the headers that came round it. -/
theorem read?_finished (h : r.method ≠ "HEAD")
    (hplain : (Envelope.enclose (some (requestId a r)) reply).headers.lookup
      "content-encoding" = none) :
    s.coding.read? (finished s a r reply) =
      some { finished s a r reply with
        body := (Envelope.enclose (some (requestId a r)) reply).body } := by
  let marked :=
    (Envelope.enclose (some (requestId a r)) reply).withHeader "x-request-id" (requestId a r)
  refine Coding.read?_of_coded r.headers marked ?_ ?_ ?_
  · rw [lookup_withHeader, if_neg (by decide)]
    exact hplain
  · rw [finished_of_ne_head h, (withAllow_status _ _ _).2]
    rfl
  · rw [finished_of_ne_head h, lookup_withAllow _ _ _ (by decide), lookup_withOrigin _ (by decide)]

end

/-! ## Posts -/

/-- A post to a place that takes it. -/
structure Posts (s : Service) (r : Request) (e : Endpoint) : Prop where
  method : r.method = "POST"
  place : Endpoint.ofPath? s.docs r.path = some e
  takes : e.takesPost = true

namespace Posts

variable {e : Endpoint}

theorem accepts (h : Posts s r e) : e.accepts r.method = true := by
  unfold Endpoint.accepts
  rw [h.takes, h.method]
  rfl

theorem ne_head (h : Posts s r e) : r.method ≠ "HEAD" := by
  rw [h.method]
  decide

theorem replyOf_eq {g : GuardedEndpoint} (h : Posts s r (.guarded g)) {caller : Principal}
    (hcaller : authenticate s a r = .ok caller) :
    replyOf s a r (.guarded g) = guardedReply s a r caller g := by
  unfold replyOf
  rw [hcaller]
  exact if_pos h.accepts

theorem read_json (h : Posts s r e) (a : Arrival) (v : Json) :
    ∃ response, s.coding.read? (finished s a r (.ok (.json 200 v))) = some response ∧
      response.status = 200 ∧ response.body = v.text :=
  ⟨_, read?_finished h.ne_head rfl, finished_status h.ne_head _, rfl⟩

theorem read_error (h : Posts s r e) (a : Arrival) (fault : ServiceError) :
    ∃ response, s.coding.read? (finished s a r (.error fault)) = some response ∧
      response.status = fault.status :=
  ⟨_, read?_finished h.ne_head rfl, finished_status h.ne_head _⟩

end Posts

theorem le_status (e : ServiceError) : 400 ≤ e.status := by
  cases e <;> simp [ServiceError.status]

end Cadence.Http
