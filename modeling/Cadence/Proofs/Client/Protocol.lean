import Cadence.Proofs.Client.Course

/-!
# The protocol of a request

What the client promises for every request whose URL can be made, whatever the surroundings answer:
a path that cools down is left alone, and else there is one request, one refresh at most, and one
more request at most. A request that cannot be sent counts as one that is not answered.
-/

namespace Cadence

open Backoff Contact

namespace BackoffClient

/-! ## What a request says -/

/-- What a request says, with a token and with the mark of a retry or without. -/
structure Asks (method : String) (url : Url) (body : Option Json) (token mark : Option String)
    (m : Http.Request) : Prop where
  method_eq : m.method = method
  target_eq : m.target = url.target
  body_eq : m.body = (body.map fun v => v.sorted.text).getD ""
  type_eq : m.headers.lookup "content-type" = body.map fun _ => Http.jsonType
  /-- all that stands there as authorization: credentials of the URL, and the token -/
  token_eq : (m.headers.filter (·.1 = "authorization")).map (·.2) =
    (basic? url).toList ++ (token.map ("Bearer " ++ ·)).toList
  mark_eq : m.headers.lookup "x-auth-retry" = mark

theorem asks_message (token : Option String) (method : String) (url : Url) (body : Option Json)
    (isRetry : Bool) :
    Asks method url body token (if isRetry then some "1" else none)
      (message token method url body isRetry) := by
  unfold message
  generalize hbasic : basic? url = basic
  constructor
  case token_eq =>
    rw [hbasic]
    cases basic <;> cases token <;> cases body <;> cases isRetry <;> rfl
  all_goals cases basic <;> cases token <;> cases body <;> cases isRetry <;> rfl

/-! ## The promise -/

/-- How a request goes that is not held back, told by what is written down. -/
structure Proceeds {σ : Type} (w : Surroundings σ) (c : BackoffClient) (method : String) (url : Url)
    (body : Option Json) (log : List Contact) (result : Except FetchError Http.Response)
    (c' : BackoffClient) : Prop where
  /-- Where the request cannot be sent, nothing happens. -/
  unsendable : w.admits url (message c.accessToken method url body false) = false →
    log = [] ∧ result = .error .transport ∧ c' = c
  /-- The first request bears the current token and no mark. -/
  first : w.admits url (message c.accessToken method url body false) = true →
    ∃ m, (sends log)[0]? = some (url, m) ∧ Asks method url body c.accessToken none m
  /-- There is a second request exactly after a refresh to a token that it can be sent with. -/
  second_iff : (sends log).length = 2 ↔ ∃ token, refreshes log = [.ok token] ∧
    w.admits url (message (some token) method url body true) = true
  /-- The second request is the first one with the new token and the mark. -/
  second : ∀ x, (sends log)[1]? = some x → x.1 = url ∧
    ∃ token, refreshes log = [.ok token] ∧ Asks method url body (some token) (some "1") x.2
  sends_le : (sends log).length ≤ 2
  /-- There is a refresh exactly if the first answer refuses the token and there is a way to have
  another one. -/
  refreshes_iff : refreshes log ≠ [] ↔
    w.refresh?.isSome ∧ ∃ r, (answers log).head? = some r ∧ r.status = unauthorized
  refreshes_le : (refreshes log).length ≤ 1
  /-- A refresh that fails is the end of the request. -/
  unrefreshed : ∀ e, refreshes log = [.error e] →
    result = .error e ∧ (sends log).length = 1 ∧ c'.accessToken = c.accessToken
  /-- Otherwise the last response counts, if every attempt had one. -/
  answered : (∀ e, refreshes log ≠ [.error e]) → (answers log).length = 1 + (refreshes log).length →
    ∃ r, (answers log).getLast? = some r ∧ result = .ok r
  unanswered : (∀ e, refreshes log ≠ [.error e]) →
    (answers log).length ≠ 1 + (refreshes log).length → result = .error .transport
  accessToken_eq : c'.accessToken =
    match refreshes log with
    | [.ok token] => some token
    | _ => c.accessToken
  baseUrl_eq : c'.baseUrl = c.baseUrl
  /-- The books are those after one call for each response, in their order. -/
  backoff_eq : c'.backoff = c.backoff.run (calls url.path.text c.backoff.config.jitter log)
  /-- No other path is written to. -/
  others_eq : ∀ key, key ≠ normalizePath url.path.text →
    c'.backoff.find? key = c.backoff.find? key

end BackoffClient

theorem Contact.find?_run_calls {key other : String} (h : other ≠ normalizePath key) (bound : Nat)
    (log : List Contact) (b : BackoffState) :
    (b.run (calls key bound log)).find? other = b.find? other := by
  have hall : ∀ c ∈ calls key bound log, c.touches other = false := by
    intro c hc
    obtain ⟨x, -, hx⟩ := List.mem_filterMap.mp hc
    cases x with
    | refreshed token => cases hx
    | sent url request answer now draw =>
      obtain ⟨r, -, rfl⟩ := Option.map_eq_some_iff.mp hx
      split <;> simp [Call.touches, Call.clears, Call.limited?, Ne.symm h]
  generalize calls key bound log = cs at hall
  induction cs generalizing b with
  | nil => rfl
  | cons c rest ih =>
    rw [List.forall_mem_cons] at hall
    exact (ih (b.apply c) hall.2).trans (BackoffState.find?_apply_of_not_touches hall.1)

namespace BackoffClient.Course

variable {σ : Type} {w : Surroundings σ} {c c' : BackoffClient} {method : String} {url : Url}
  {body : Option Json} {s s' : σ} {log : List Contact} {result : Except FetchError Http.Response}

/-- The token of a refresh that succeeded. -/
def newToken? (log : List Contact) : Option String :=
  match refreshes log with
  | [.ok token] => some token
  | _ => none

theorem newToken?_eq_some_iff {token : String} :
    newToken? log = some token ↔ refreshes log = [.ok token] := by
  unfold newToken?
  split
  · rename_i t ht
    simp [ht]
  · rename_i hnot
    simp only [reduceCtorEq, false_iff]
    exact hnot token

theorem sends_eq (h : Course w c method url body s log result c' s') :
    sends log = w.outgoing url (message c.accessToken method url body false) ++
      (newToken? log).elim [] fun token =>
        w.outgoing url (message (some token) method url body true) := by
  cases h with
  | failed first => simp [newToken?, first.sends_eq, first.refreshes_eq]
  | settled first => simp [newToken?, first.sends_eq, first.refreshes_eq]
  | unrefreshed first => simp [newToken?, first.sends_eq, first.refreshes_eq]
  | retried first _ _ _ second =>
    simp [newToken?, first.sends_eq, first.refreshes_eq, second.sends_eq, second.refreshes_eq]

theorem refreshes_iff (h : Course w c method url body s log result c' s') :
    refreshes log ≠ [] ↔
      w.refresh?.isSome ∧ ∃ r, (answers log).head? = some r ∧ r.status = unauthorized := by
  cases h with
  | failed first => simp [first.answers_eq, first.refreshes_eq]
  | settled first hdone =>
    rcases hdone with hdone | hdone <;> simp [first.answers_eq, first.refreshes_eq, hdone]
  | unrefreshed first hrefused hrefresh =>
    simp [first.answers_eq, first.refreshes_eq, hrefused, hrefresh]
  | retried first hrefused hrefresh _ second =>
    simp [first.answers_eq, first.refreshes_eq, second.refreshes_eq, hrefused, hrefresh]

theorem refreshes_le (h : Course w c method url body s log result c' s') :
    (refreshes log).length ≤ 1 := by
  cases h with
  | failed first => simp [first.refreshes_eq]
  | settled first => simp [first.refreshes_eq]
  | unrefreshed first => simp [first.refreshes_eq]
  | retried first _ _ _ second => simp [first.refreshes_eq, second.refreshes_eq]

theorem eq_nil_of_unsendable (h : Course w c method url body s log result c' s')
    (hrefused : w.admits url (message c.accessToken method url body false) = false) :
    log = [] ∧ result = .error .transport ∧ c' = c := by
  cases h with
  | failed first =>
    obtain ⟨hlog, -, hc⟩ := first.eq_nil_of_unsendable hrefused
    exact ⟨hlog, rfl, hc⟩
  | settled first => cases (first.eq_nil_of_unsendable hrefused).2.1
  | unrefreshed first => cases (first.eq_nil_of_unsendable hrefused).2.1
  | retried first => cases (first.eq_nil_of_unsendable hrefused).2.1

theorem of_unrefreshed (h : Course w c method url body s log result c' s') {e : FetchError}
    (he : refreshes log = [.error e]) : result = .error e ∧ c'.accessToken = c.accessToken := by
  cases h with
  | failed first => simp [first.refreshes_eq] at he
  | settled first => simp [first.refreshes_eq] at he
  | unrefreshed first =>
    simp only [refreshes_append, first.refreshes_eq, refreshes_refreshed, refreshes_nil,
      List.nil_append, List.cons.injEq, Except.error.injEq, and_true] at he
    exact ⟨congrArg _ he, first.accessToken_eq⟩
  | retried first _ _ _ second => simp [first.refreshes_eq, second.refreshes_eq] at he

theorem result_eq (h : Course w c method url body s log result c' s')
    (hnot : ∀ e, refreshes log ≠ [.error e]) :
    if (answers log).length = 1 + (refreshes log).length
    then ∃ r, (answers log).getLast? = some r ∧ result = .ok r
    else result = .error .transport := by
  cases h with
  | failed first => simp [first.answers_eq, first.refreshes_eq]
  | settled first => simp [first.answers_eq, first.refreshes_eq]
  | @unrefreshed _ _ _ _ _ _ e first =>
    exact absurd (by simp [first.refreshes_eq]) (hnot e)
  | @retried _ _ r answer _ _ _ _ _ _ _ first _ _ _ second =>
    cases answer <;>
      simp [first.answers_eq, first.refreshes_eq, second.answers_eq, second.refreshes_eq]

theorem accessToken_eq (h : Course w c method url body s log result c' s') :
    c'.accessToken =
      match refreshes log with
      | [.ok token] => some token
      | _ => c.accessToken := by
  cases h with
  | failed first => simp [first.refreshes_eq, first.accessToken_eq]
  | settled first => simp [first.refreshes_eq, first.accessToken_eq]
  | unrefreshed first => simp [first.refreshes_eq, first.accessToken_eq]
  | retried first _ _ _ second =>
    simp [first.refreshes_eq, second.refreshes_eq, second.accessToken_eq]

theorem baseUrl_eq (h : Course w c method url body s log result c' s') :
    c'.baseUrl = c.baseUrl := by
  cases h with
  | failed first => exact first.baseUrl_eq
  | settled first => exact first.baseUrl_eq
  | unrefreshed first => exact first.baseUrl_eq
  | retried first _ _ _ second => exact second.baseUrl_eq.trans first.baseUrl_eq

/-- The books go on from attempt to attempt, and a refresh does not touch them. -/
theorem backoff_eq (h : Course w c method url body s log result c' s') :
    c'.backoff = c.backoff.run (calls url.path.text c.backoff.config.jitter log) := by
  cases h with
  | failed first => exact first.backoff_eq
  | settled first => exact first.backoff_eq
  | unrefreshed first =>
    rw [calls_append, calls_refreshed, calls_nil, List.append_nil]
    exact first.backoff_eq
  | retried first _ _ _ second =>
    rw [second.backoff_eq, first.backoff_eq, BackoffState.config_run, ← BackoffState.run_append,
      calls_append, calls_append, calls_refreshed, calls_nil, List.append_nil]

theorem admits_of_refreshes (h : Course w c method url body s log result c' s')
    (hne : refreshes log ≠ []) :
    w.admits url (message c.accessToken method url body false) = true := by
  by_contra hrefused
  rw [(h.eq_nil_of_unsendable (Bool.not_eq_true _ ▸ hrefused)).1] at hne
  exact hne rfl

theorem sends_of_newToken?_none (h : Course w c method url body s log result c' s')
    (hnone : newToken? log = none) :
    sends log = w.outgoing url (message c.accessToken method url body false) := by
  rw [h.sends_eq, hnone, Option.elim_none, List.append_nil]

theorem sends_of_newToken? (h : Course w c method url body s log result c' s') {token : String}
    (hrefreshes : refreshes log = [.ok token]) :
    sends log = (url, message c.accessToken method url body false) ::
      w.outgoing url (message (some token) method url body true) := by
  have hfirst := h.admits_of_refreshes (by simp [hrefreshes])
  rw [h.sends_eq, newToken?_eq_some_iff.mpr hrefreshes, Surroundings.outgoing, hfirst]
  rfl

theorem sends_to (h : Course w c method url body s log result c' s') {x : Url × Http.Request}
    (hx : x ∈ sends log) : x.1 = url := by
  have hout {m : Http.Request} (hx : x ∈ w.outgoing url m) : x.1 = url := by
    unfold Surroundings.outgoing at hx
    split at hx
    · rw [List.mem_singleton.mp hx]
    · cases hx
  rw [h.sends_eq, List.mem_append] at hx
  rcases hx with hx | hx
  · exact hout hx
  · cases htoken : newToken? log with
    | none =>
      rw [htoken] at hx
      cases hx
    | some token =>
      rw [htoken] at hx
      exact hout hx

theorem outgoing_length_le (w : Surroundings σ) (url : Url) (m : Http.Request) :
    (w.outgoing url m).length ≤ 1 := by
  unfold Surroundings.outgoing
  split <;> simp

theorem sends_le (h : Course w c method url body s log result c' s') : (sends log).length ≤ 2 := by
  have hfirst := outgoing_length_le w url (message c.accessToken method url body false)
  cases htoken : newToken? log with
  | none =>
    rw [h.sends_of_newToken?_none htoken]
    omega
  | some token =>
    have hsecond := outgoing_length_le w url (message (some token) method url body true)
    rw [h.sends_of_newToken? (newToken?_eq_some_iff.mp htoken), List.length_cons]
    omega

theorem second_cases (h : Course w c method url body s log result c' s')
    {x : Url × Http.Request} (hx : (sends log)[1]? = some x) :
    ∃ token, refreshes log = [.ok token] ∧
      w.admits url (message (some token) method url body true) = true ∧
      x = (url, message (some token) method url body true) := by
  cases htoken : newToken? log with
  | none =>
    have hlength := outgoing_length_le w url (message c.accessToken method url body false)
    rw [h.sends_of_newToken?_none htoken, List.getElem?_eq_none hlength] at hx
    cases hx
  | some token =>
    have hrefreshes := newToken?_eq_some_iff.mp htoken
    rw [h.sends_of_newToken? hrefreshes, Surroundings.outgoing, List.getElem?_cons_succ] at hx
    split at hx
    · rename_i hadmits
      cases hx
      exact ⟨token, hrefreshes, hadmits, rfl⟩
    · cases hx

theorem sends_length_eq_two_iff (h : Course w c method url body s log result c' s') :
    (sends log).length = 2 ↔ ∃ token, refreshes log = [.ok token] ∧
      w.admits url (message (some token) method url body true) = true := by
  constructor
  · intro hlength
    have hx : (sends log)[1]? = some (sends log)[1] := List.getElem?_eq_getElem (by omega)
    obtain ⟨token, hrefreshes, hadmits, -⟩ := h.second_cases hx
    exact ⟨token, hrefreshes, hadmits⟩
  · rintro ⟨token, hrefreshes, hadmits⟩
    rw [h.sends_of_newToken? hrefreshes, Surroundings.outgoing, hadmits]
    rfl

theorem proceeds (h : Course w c method url body s log result c' s') :
    Proceeds w c method url body log result c' where
  unsendable := h.eq_nil_of_unsendable
  first := by
    intro hadmits
    refine ⟨message c.accessToken method url body false, ?_,
      asks_message c.accessToken method url body false⟩
    rw [h.sends_eq, Surroundings.outgoing, hadmits]
    rfl
  second_iff := h.sends_length_eq_two_iff
  second := by
    intro x hx
    obtain ⟨token, hrefreshes, -, rfl⟩ := h.second_cases hx
    exact ⟨rfl, token, hrefreshes, asks_message (some token) method url body true⟩
  sends_le := h.sends_le
  refreshes_iff := h.refreshes_iff
  refreshes_le := h.refreshes_le
  unrefreshed := by
    intro e he
    obtain ⟨hresult, htoken⟩ := h.of_unrefreshed he
    have hfirst := h.admits_of_refreshes (by simp [he])
    have hnone : newToken? log = none := by simp [newToken?, he]
    refine ⟨hresult, ?_, htoken⟩
    rw [h.sends_of_newToken?_none hnone, Surroundings.outgoing, hfirst]
    rfl
  answered := by
    intro hnot hlength
    have hresult := h.result_eq hnot
    rwa [if_pos hlength] at hresult
  unanswered := by
    intro hnot hlength
    have hresult := h.result_eq hnot
    rwa [if_neg hlength] at hresult
  accessToken_eq := h.accessToken_eq
  baseUrl_eq := h.baseUrl_eq
  backoff_eq := h.backoff_eq
  others_eq := by
    intro key hkey
    rw [h.backoff_eq]
    exact find?_run_calls hkey _ log c.backoff

end BackoffClient.Course

open BackoffClient

section Protocol

variable [HostNames]

/-- A request whose URL can be made. While its path cools down nothing is sent and nothing changes.
Otherwise the request proceeds as promised: one attempt, one refresh if the token is refused, and
one more attempt with the new token. What is told of is what the client does in any surroundings,
whether they keep a log or not. -/
theorem request_keeps_protocol {σ : Type} (w : Surroundings σ) {c : BackoffClient} {path : String}
    {url : Url} (hurl : c.baseUrl.join path = .ok url) (method : String) (body : Option Json)
    (s : σ) :
    ∃ log result c' s',
      c.request w method path body s = (result, c', s') ∧
      c.request w.recorded method path body (s, []) = (result, c', s', log) ∧
      (∀ u, c.backoff.cooling? url.path.text (w.now s) = some u →
        log = [] ∧ result = .error (.cooling url.path.text u) ∧ c' = c ∧ s' = s) ∧
      (c.backoff.cooling? url.path.text (w.now s) = none →
        Proceeds w c method url body log result c') := by
  cases hcooling : c.backoff.cooling? url.path.text (w.now s) with
  | some u =>
    refine ⟨[], _, c, s, request_of_cooling hurl hcooling method body,
      request_of_cooling (w := w.recorded) (s := (s, [])) hurl hcooling method body, ?_, ?_⟩
    · rintro v ⟨rfl⟩
      exact ⟨rfl, rfl, rfl, rfl⟩
    · intro hready
      cases hready
  | none =>
    obtain ⟨log, result, c', s', hcourse, hrequest, hwritten⟩ :=
      request_recorded hurl hcooling method body
    refine ⟨log, result, c', s', hrequest, hwritten [], ?_, fun _ => hcourse.proceeds⟩
    intro u hu
    cases hu

end Protocol

namespace BackoffClient

/-- A server of the web at some address. -/
def exampleBase : Url := ⟨"http", "", "", some (.domain "crm"), none, .segments [""], none, none⟩

/-- Surroundings that answer with one status after the other, and have one token to give. A request
must go to the web, and have headers without line breaks. -/
def exampleSurroundings (token : String) : Surroundings (List Nat) where
  now _ := .epoch
  jitter _ _ := 0
  admits url m := (url.scheme = "http" || url.scheme = "https") &&
    m.headers.all fun h => h.2.toList.all fun c => c ≠ '\n' && c ≠ '\r'
  send _ _ statuses := (statuses.head?.map .ofStatus, statuses.tail)
  refresh? := some fun statuses => (.ok token, statuses)

theorem request_of_unsendable [HostNames] {σ : Type} {w : Surroundings σ} {c : BackoffClient}
    {method path : String} {url : Url} {body : Option Json} {s : σ}
    (hurl : c.baseUrl.join path = .ok url)
    (hready : c.backoff.cooling? url.path.text (w.now s) = none)
    (hrefused : w.admits url (message c.accessToken method url body false) = false) :
    c.request w method path body s = (.error .transport, c, s) := by
  have hor : urlOr c.baseUrl.join path = .ok url := congrArg (Except.mapError _) hurl
  unfold request attempt
  simp only [hor, hready, hrefused, Bool.false_eq_true, if_false]

end BackoffClient

theorem request_keeps_protocol_of_two_attempts :
    let _ : HostNames := .plain
    let w := exampleSurroundings "new"
    let c : BackoffClient := ⟨exampleBase, .new {}, some "old"⟩
    let url := { exampleBase with path := .segments ["a"] }
    c.baseUrl.join "/a" = .ok url ∧
      ∃ log c', c.request w.recorded "GET" "/a" none ([401, 429], []) =
          (.ok (.ofStatus 429), c', [], log) ∧
        Proceeds w c "GET" url none log (.ok (.ofStatus 429)) c' ∧
        (sends log).length = 2 ∧ c'.backoff.count "/a" = 1 ∧ c'.accessToken = some "new" := by
  intro _ w c url
  have hurl : c.baseUrl.join "/a" = .ok url := by decide +kernel
  have hready : c.backoff.cooling? url.path.text (w.now [401, 429]) = none := rfl
  obtain ⟨log, result, c', s', -, hwritten, -, hproceeds⟩ :=
    request_keeps_protocol w hurl "GET" none [401, 429]
  have hresult : (c.request w.recorded "GET" "/a" none ([401, 429], [])).1 =
      .ok (.ofStatus 429) := by decide +kernel
  have hrest : (c.request w.recorded "GET" "/a" none ([401, 429], [])).2.2.1 = [] := by
    decide +kernel
  have hsends :
      (sends (c.request w.recorded "GET" "/a" none ([401, 429], [])).2.2.2).length = 2 := by
    decide +kernel
  have hcount :
      (c.request w.recorded "GET" "/a" none ([401, 429], [])).2.1.backoff.count "/a" = 1 := by
    decide +kernel
  have htoken :
      (c.request w.recorded "GET" "/a" none ([401, 429], [])).2.1.accessToken = some "new" := by
    decide +kernel
  rw [hwritten] at hresult hrest hsends hcount htoken
  subst hresult hrest
  exact ⟨hurl, log, c', hwritten, hproceeds hready, hsends, hcount, htoken⟩

/-- A token with the end of a line in it stands in no header, and a URL of another scheme is not for
the web. In neither case is a request sent, although the path is not cooling down. -/
theorem unsendable_requests_are_not_sent :
    let _ : HostNames := .plain
    let w := exampleSurroundings "new"
    let broken : BackoffClient := ⟨exampleBase, .new {}, some "old\n"⟩
    let url := { exampleBase with path := .segments ["a"] }
    let foreign : BackoffClient := ⟨{ exampleBase with scheme := "ftp" }, .new {}, some "old"⟩
    let foreignUrl := { url with scheme := "ftp" }
    let sent (c : BackoffClient) := sends (c.request w.recorded "GET" "/a" none ([200], [])).2.2.2
    broken.baseUrl.join "/a" = .ok url ∧
      broken.backoff.cooling? url.path.text (w.now [200]) = none ∧
      broken.request w.recorded "GET" "/a" none ([200], []) = (.error .transport, broken, [200], []) ∧
      foreign.baseUrl.join "/a" = .ok foreignUrl ∧
      foreign.backoff.cooling? foreignUrl.path.text (w.now [200]) = none ∧
      foreign.request w.recorded "GET" "/a" none ([200], []) =
        (.error .transport, foreign, [200], []) ∧
      (sent broken).length ≠ 1 ∧ (sent foreign).length ≠ 1 := by
  intro _ w broken url foreign foreignUrl sent
  have hurl : broken.baseUrl.join "/a" = .ok url := by decide +kernel
  have hforeign : foreign.baseUrl.join "/a" = .ok foreignUrl := by decide +kernel
  have hbroken : w.admits url (message broken.accessToken "GET" url none false) = false := by
    decide +kernel
  have hscheme : w.admits foreignUrl (message foreign.accessToken "GET" foreignUrl none false) =
      false := by decide +kernel
  have hfirst : broken.request w.recorded "GET" "/a" none ([200], []) =
      (.error .transport, broken, [200], []) := request_of_unsendable hurl rfl hbroken
  have hsecond : foreign.request w.recorded "GET" "/a" none ([200], []) =
      (.error .transport, foreign, [200], []) := request_of_unsendable hforeign rfl hscheme
  refine ⟨hurl, rfl, hfirst, hforeign, rfl, hsecond, ?_, ?_⟩
  · simp [sent, hfirst]
  · simp [sent, hsecond]

end Cadence
