import Cadence.Client.Fetch
import Cadence.Proofs.Client.History

/-!
# The course of a request

What a client does to its surroundings is written down, in its order: the requests that it sends,
with their answers, and the refreshes of its token. A request then has a course, which tells what
was written down, the result and the client afterwards.
-/

namespace Cadence

open Backoff

/-! ## What is written down -/

/-- Something that a client does to its surroundings. -/
inductive Contact
  /-- a request to a URL and its answer, with the clock and the random numbers afterwards -/
  | sent (url : Url) (request : Http.Request) (answer : Option Http.Response) (now : Instant)
      (draw : Nat → Nat)
  | refreshed (token : Except FetchError String)

namespace Contact

/-- The requests, each with the URL it goes to. -/
def sends (log : List Contact) : List (Url × Http.Request) :=
  log.filterMap fun
    | sent url request _ _ _ => some (url, request)
    | refreshed _ => none

def answers (log : List Contact) : List Http.Response :=
  log.filterMap fun
    | sent _ _ answer _ _ => answer
    | refreshed _ => none

def refreshes (log : List Contact) : List (Except FetchError String) :=
  log.filterMap fun
    | sent _ _ _ _ _ => none
    | refreshed token => some token

/-- What the responses tell of a path: limited once more, or cleared. -/
def calls (key : String) (bound : Nat) (log : List Contact) : List Call :=
  log.filterMap fun
    | sent _ _ answer now draw => answer.map fun r =>
      if r.status = BackoffClient.tooManyRequests then .limited key now (draw bound)
      else .succeeded key
    | refreshed _ => none

variable (log log' : List Contact) (key : String) (bound : Nat)

@[simp] theorem sends_append : sends (log ++ log') = sends log ++ sends log' :=
  List.filterMap_append

@[simp] theorem answers_append : answers (log ++ log') = answers log ++ answers log' :=
  List.filterMap_append

@[simp] theorem refreshes_append : refreshes (log ++ log') = refreshes log ++ refreshes log' :=
  List.filterMap_append

@[simp] theorem calls_append :
    calls key bound (log ++ log') = calls key bound log ++ calls key bound log' :=
  List.filterMap_append

@[simp] theorem sends_nil : sends [] = [] := rfl

@[simp] theorem answers_nil : answers [] = [] := rfl

@[simp] theorem refreshes_nil : refreshes [] = [] := rfl

@[simp] theorem calls_nil : calls key bound [] = [] := rfl

@[simp] theorem sends_refreshed (token : Except FetchError String) :
    sends (refreshed token :: log) = sends log := rfl

@[simp] theorem answers_refreshed (token : Except FetchError String) :
    answers (refreshed token :: log) = answers log := rfl

@[simp] theorem refreshes_refreshed (token : Except FetchError String) :
    refreshes (refreshed token :: log) = token :: refreshes log := rfl

@[simp] theorem calls_refreshed (token : Except FetchError String) :
    calls key bound (refreshed token :: log) = calls key bound log := rfl

end Contact

variable {σ : Type}

/-- The surroundings with a log of what is done to them. -/
def Surroundings.recorded (w : Surroundings σ) : Surroundings (σ × List Contact) where
  now s := w.now s.1
  jitter bound s := w.jitter bound s.1
  admits := w.admits
  send url request s :=
    let (answer, next) := w.send url request s.1
    (answer, next, s.2 ++ [.sent url request answer (w.now next) (w.jitter · next)])
  refresh? := w.refresh?.map fun refresh s =>
    let (token, next) := refresh s.1
    (token, next, s.2 ++ [.refreshed token])

/-- What goes out for a request: the request itself, if it can be sent. -/
def Surroundings.outgoing (w : Surroundings σ) (url : Url) (m : Http.Request) :
    List (Url × Http.Request) :=
  if w.admits url m then [(url, m)] else []

namespace BackoffClient

/-! ## One attempt -/

/-- How one attempt goes: what is written down, the response if there is one, the client and its
surroundings afterwards. -/
inductive Attempt (w : Surroundings σ) (c : BackoffClient) (method : String) (url : Url)
    (body : Option Json) (isRetry : Bool) (s : σ) :
    List Contact → Option Http.Response → BackoffClient → σ → Prop
  | unsendable
      (hrefused : w.admits url (message c.accessToken method url body isRetry) = false) :
      Attempt w c method url body isRetry s [] none c s
  | unanswered {m : Http.Request} {next : σ}
      (hm : message c.accessToken method url body isRetry = m) (hadmits : w.admits url m = true)
      (hsend : w.send url m s = (none, next)) :
      Attempt w c method url body isRetry s
        [.sent url m none (w.now next) (w.jitter · next)] none c next
  | answered {m : Http.Request} {r : Http.Response} {next : σ}
      (hm : message c.accessToken method url body isRetry = m) (hadmits : w.admits url m = true)
      (hsend : w.send url m s = (some r, next)) :
      Attempt w c method url body isRetry s
        [.sent url m (some r) (w.now next) (w.jitter · next)] (some r)
        { c with backoff := track w next url.path.text r.status c.backoff } next

variable {w : Surroundings σ} {c c' : BackoffClient} {method : String} {url : Url}
  {body : Option Json} {isRetry : Bool} {s s' : σ} {log : List Contact}
  {answer : Option Http.Response}

theorem attempt_recorded (w : Surroundings σ) (c : BackoffClient) (method : String) (url : Url)
    (body : Option Json) (isRetry : Bool) (s : σ) :
    ∃ log answer c' s', Attempt w c method url body isRetry s log answer c' s' ∧
      attempt w c method url body isRetry s = (answer, c', s') ∧
      ∀ before, attempt w.recorded c method url body isRetry (s, before) =
        (answer, c', s', before ++ log) := by
  have hrecorded : w.recorded.admits = w.admits := rfl
  unfold attempt
  rw [hrecorded]
  generalize hm : message c.accessToken method url body isRetry = m
  cases hadmits : w.admits url m with
  | false =>
    refine ⟨[], none, c, s, .unsendable (hm ▸ hadmits), ?_, fun before => ?_⟩
    · simp only [hadmits, Bool.false_eq_true, if_false]
    · simp only [hadmits, Bool.false_eq_true, if_false, List.append_nil]
  | true =>
    rcases hsend : w.send url m s with ⟨_ | r, next⟩
    · refine ⟨_, none, c, next, .unanswered hm hadmits hsend, ?_, fun before => ?_⟩
      · simp only [hadmits, hsend, if_true]
      · simp only [Surroundings.recorded, hadmits, hsend, if_true]
    · refine ⟨_, some r, _, next, .answered hm hadmits hsend, ?_, fun before => ?_⟩
      · simp only [hadmits, hsend, if_true]
      · simp only [Surroundings.recorded, hadmits, hsend, if_true]
        rfl

namespace Attempt

theorem sends_eq (h : Attempt w c method url body isRetry s log answer c' s') :
    Contact.sends log = w.outgoing url (message c.accessToken method url body isRetry) := by
  unfold Surroundings.outgoing
  cases h with
  | unsendable hrefused =>
    rw [hrefused]
    rfl
  | unanswered hm hadmits =>
    rw [hm, hadmits]
    rfl
  | answered hm hadmits =>
    rw [hm, hadmits]
    rfl

theorem answers_eq (h : Attempt w c method url body isRetry s log answer c' s') :
    Contact.answers log = answer.toList := by
  cases h <;> rfl

theorem refreshes_eq (h : Attempt w c method url body isRetry s log answer c' s') :
    Contact.refreshes log = [] := by
  cases h <;> rfl

theorem baseUrl_eq (h : Attempt w c method url body isRetry s log answer c' s') :
    c'.baseUrl = c.baseUrl := by
  cases h <;> rfl

theorem accessToken_eq (h : Attempt w c method url body isRetry s log answer c' s') :
    c'.accessToken = c.accessToken := by
  cases h <;> rfl

theorem backoff_eq (h : Attempt w c method url body isRetry s log answer c' s') :
    c'.backoff =
      c.backoff.run (Contact.calls url.path.text c.backoff.config.jitter log) := by
  cases h with
  | unsendable => rfl
  | unanswered => rfl
  | @answered m r next =>
    unfold track
    by_cases hstatus : r.status = tooManyRequests
    · simp [Contact.calls, hstatus, BackoffState.run, BackoffState.apply]
    · simp [Contact.calls, hstatus, BackoffState.run, BackoffState.apply]

theorem eq_nil_of_unsendable (h : Attempt w c method url body isRetry s log answer c' s')
    (hrefused : w.admits url (message c.accessToken method url body isRetry) = false) :
    log = [] ∧ answer = none ∧ c' = c := by
  cases h with
  | unsendable => exact ⟨rfl, rfl, rfl⟩
  | unanswered hm hadmits =>
    rw [hm, hadmits] at hrefused
    cases hrefused
  | answered hm hadmits =>
    rw [hm, hadmits] at hrefused
    cases hrefused

end Attempt

/-! ## A whole request -/

/-- How a request to a URL goes that is not held back. -/
inductive Course (w : Surroundings σ) (c : BackoffClient) (method : String) (url : Url)
    (body : Option Json) (s : σ) :
    List Contact → Except FetchError Http.Response → BackoffClient → σ → Prop
  /-- there was no answer -/
  | failed {log : List Contact} {c' : BackoffClient} {s' : σ}
      (first : Attempt w c method url body false s log none c' s') :
      Course w c method url body s log (.error .transport) c' s'
  /-- the answer accepts the token, or there is no other one to be had -/
  | settled {log : List Contact} {r : Http.Response} {c' : BackoffClient} {s' : σ}
      (first : Attempt w c method url body false s log (some r) c' s')
      (hdone : r.status ≠ unauthorized ∨ w.refresh? = none) :
      Course w c method url body s log (.ok r) c' s'
  /-- the token is refused, and there was no new one -/
  | unrefreshed {log : List Contact} {r : Http.Response} {c' : BackoffClient} {s' next : σ}
      {refresh : σ → Except FetchError String × σ} {e : FetchError}
      (first : Attempt w c method url body false s log (some r) c' s')
      (hrefused : r.status = unauthorized) (hrefresh : w.refresh? = some refresh)
      (herror : refresh s' = (.error e, next)) :
      Course w c method url body s (log ++ [.refreshed (.error e)]) (.error e) c' next
  /-- the token is refused, and a second attempt is made with a new one -/
  | retried {log log' : List Contact} {r : Http.Response} {answer : Option Http.Response}
      {c' c'' : BackoffClient} {s' next s'' : σ} {refresh : σ → Except FetchError String × σ}
      {token : String} (first : Attempt w c method url body false s log (some r) c' s')
      (hrefused : r.status = unauthorized) (hrefresh : w.refresh? = some refresh)
      (hok : refresh s' = (.ok token, next))
      (second : Attempt w { c' with accessToken := some token } method url body true next log' answer
        c'' s'') :
      Course w c method url body s (log ++ [.refreshed (.ok token)] ++ log')
        (answer.elim (.error .transport) .ok) c'' s''

theorem retry_recorded {r : Http.Response}
    (first : Attempt w c method url body false s log (some r) c' s')
    (hrefused : r.status = unauthorized) :
    ∃ log' result c'' s'', Course w c method url body s log' result c'' s'' ∧
      retry w c' method url body r s' = (result, c'', s'') ∧
      ∀ before, retry w.recorded c' method url body r (s', before ++ log) =
        (result, c'', s'', before ++ log') := by
  unfold retry
  cases hrefresh : w.refresh? with
  | none =>
    refine ⟨log, _, c', s', .settled first (.inr hrefresh), rfl, fun before => ?_⟩
    simp only [Surroundings.recorded, hrefresh, Option.map_none]
  | some refresh =>
    have hrecorded : w.recorded.refresh? = some fun s =>
        ((refresh s.1).1, (refresh s.1).2, s.2 ++ [.refreshed (refresh s.1).1]) := by
      simp only [Surroundings.recorded, hrefresh, Option.map_some]
    rw [hrecorded]
    rcases houtcome : refresh s' with ⟨e | token, next⟩
    · refine ⟨_, _, c', next, .unrefreshed first hrefused hrefresh houtcome, ?_, fun before => ?_⟩
      · simp only [houtcome]
      · simp only [houtcome, List.append_assoc]
    · obtain ⟨log', answer, c'', s'', second, hattempt, hwritten⟩ :=
        attempt_recorded w { c' with accessToken := some token } method url body true next
      refine ⟨_, _, c'', s'', .retried first hrefused hrefresh houtcome second, ?_, fun before => ?_⟩
      · simp only [houtcome, hattempt]
        cases answer <;> rfl
      · simp only [houtcome, hwritten, List.append_assoc]
        cases answer <;> rfl

variable [HostNames]

theorem request_recorded {path : String} (hurl : c.baseUrl.join path = .ok url)
    (hready : c.backoff.cooling? url.path.text (w.now s) = none) (method : String)
    (body : Option Json) :
    ∃ log result c' s', Course w c method url body s log result c' s' ∧
      c.request w method path body s = (result, c', s') ∧
      ∀ before, c.request w.recorded method path body (s, before) =
        (result, c', s', before ++ log) := by
  have hor : urlOr c.baseUrl.join path = .ok url := congrArg (Except.mapError _) hurl
  have hrecorded (before : List Contact) :
      c.backoff.cooling? url.path.text (w.recorded.now (s, before)) = none := hready
  obtain ⟨log, answer, c', s', first, hattempt, hwritten⟩ :=
    attempt_recorded w c method url body false s
  unfold request
  simp only [hor, hready, hrecorded, hattempt, hwritten]
  cases answer with
  | none => exact ⟨log, _, c', s', .failed first, rfl, fun before => rfl⟩
  | some r =>
    by_cases hrefused : r.status = unauthorized
    · simp only [hrefused, if_true]
      exact retry_recorded first hrefused
    · simp only [hrefused, if_false]
      exact ⟨log, _, c', s', .settled first (.inl hrefused), rfl, fun before => rfl⟩

theorem request_of_cooling {path : String} {u : Instant} (hurl : c.baseUrl.join path = .ok url)
    (hcooling : c.backoff.cooling? url.path.text (w.now s) = some u) (method : String)
    (body : Option Json) :
    c.request w method path body s = (.error (.cooling url.path.text u), c, s) := by
  have hor : urlOr c.baseUrl.join path = .ok url := congrArg (Except.mapError _) hurl
  unfold request
  simp only [hor, hcooling]

theorem request_of_no_url {path : String} {f : Url.Fault} (hurl : c.baseUrl.join path = .error f)
    (w : Surroundings σ) (method : String) (body : Option Json) (s : σ) :
    c.request w method path body s =
      (.error (.invalidUrl s!"{path}: {f.message}"), c, s) := by
  unfold request urlOr
  rw [hurl]
  rfl

/-- A request does nothing, or it takes its course. -/
theorem request_cases (w : Surroundings σ) (c : BackoffClient) (method path : String)
    (body : Option Json) (s : σ) :
    (∃ e, ∀ before, c.request w.recorded method path body (s, before) =
      (.error e, c, s, before)) ∨
    ∃ url log result c' s', c.baseUrl.join path = .ok url ∧
      Course w c method url body s log result c' s' ∧
      ∀ before, c.request w.recorded method path body (s, before) =
        (result, c', s', before ++ log) := by
  cases hurl : c.baseUrl.join path with
  | error f =>
    exact .inl ⟨_, fun before => request_of_no_url hurl w.recorded method body (s, before)⟩
  | ok url =>
    cases hcooling : c.backoff.cooling? url.path.text (w.now s) with
    | some u =>
      have hcooling' (before : List Contact) :
          c.backoff.cooling? url.path.text (w.recorded.now (s, before)) = some u := hcooling
      exact .inl ⟨_, fun before => request_of_cooling hurl (hcooling' before) method body⟩
    | none =>
      obtain ⟨log, result, c', s', hcourse, -, hwritten⟩ :=
        request_recorded hurl hcooling method body
      exact .inr ⟨url, log, result, c', s', rfl, hcourse, hwritten⟩

end BackoffClient

end Cadence
