import Cadence.Proofs.Client.Bearer
import Cadence.Proofs.Client.Message
import Cadence.Proofs.Json.TextRecord

/-!
# Refresh tokens in turn

Each answer to a refresh brings the refresh token for the next one. A refresher asks with the token
of the latest answer that brought one, however many refreshes have failed since.
-/

namespace Cadence

open Http

variable {σ : Type} {w : Surroundings σ} {r : TokenRefresher} {s : σ}

namespace TokenRefresher

/-! ## One refresh -/

/-- The answer to a refresh, if there is one. -/
def answer? (w : Surroundings σ) (r : TokenRefresher) (s : σ) : Option Response :=
  if w.admits r.endpoint r.message then (w.send r.endpoint r.message s).1 else none

/-- The surroundings after a refresh. -/
def left (w : Surroundings σ) (r : TokenRefresher) (s : σ) : σ :=
  if w.admits r.endpoint r.message then (w.send r.endpoint r.message s).2 else s

/-- The access token and the refresh token that an answer brings: it is a success, and its body
decodes. -/
def brought? (answer? : Option Response) : Option (String × String) :=
  answer?.bind fun response => if isSuccess response.status then tokensOf? response else none

theorem brought?_eq_some_iff {answer? : Option Response} {access next : String} :
    brought? answer? = some (access, next) ↔ ∃ response, answer? = some response ∧
      isSuccess response.status = true ∧ tokensOf? response = some (access, next) := by
  unfold brought?
  rw [Option.bind_eq_some_iff]
  simp only [Option.ite_none_right_eq_some]

theorem accept_brought (r : TokenRefresher) (answer? : Option Response) :
    (r.accept answer?).1.toOption = (brought? answer?).map (·.1) ∧
      (r.accept answer?).2 =
        { r with refreshToken := ((brought? answer?).map (·.2)).getD r.refreshToken } := by
  cases answer? with
  | none => exact ⟨rfl, rfl⟩
  | some response =>
    unfold brought? accept
    rw [Option.bind_some]
    by_cases hstatus : isSuccess response.status = true
    · simp only [hstatus, if_true]
      cases tokensOf? response <;> exact ⟨rfl, rfl⟩
    · simp only [hstatus, if_false, Bool.false_eq_true]
      exact ⟨rfl, rfl⟩

theorem refresh_eq (w : Surroundings σ) (r : TokenRefresher) (s : σ) :
    r.refresh w s =
      ((r.accept (r.answer? w s)).1, (r.accept (r.answer? w s)).2, r.left w s) := by
  unfold answer? left refresh
  split <;> rfl

/-- What a refresh does to its surroundings. -/
def contacts (w : Surroundings σ) (r : TokenRefresher) (s : σ) : List Contact :=
  (w.outgoing r.endpoint r.message).map fun x =>
    .sent x.1 x.2 (r.answer? w s) (w.now (r.left w s)) (w.jitter · (r.left w s))

theorem refresh_recorded (w : Surroundings σ) (r : TokenRefresher) (s : σ) (log : List Contact) :
    r.refresh w.recorded (s, log) =
      ((r.accept (r.answer? w s)).1, (r.accept (r.answer? w s)).2, r.left w s,
        log ++ r.contacts w s) := by
  have hrecorded : w.recorded.admits = w.admits := rfl
  unfold refresh contacts answer? left Surroundings.outgoing
  rw [hrecorded]
  cases w.admits r.endpoint r.message with
  | false =>
    simp only [Bool.false_eq_true, if_false, List.map_nil, List.append_nil]
    rfl
  | true => rfl

theorem sends_contacts (w : Surroundings σ) (r : TokenRefresher) (s : σ) :
    Contact.sends (r.contacts w s) = w.outgoing r.endpoint r.message := by
  unfold contacts Surroundings.outgoing
  split <;> rfl

theorem answers_contacts (w : Surroundings σ) (r : TokenRefresher) (s : σ) :
    Contact.answers (r.contacts w s) = (r.answer? w s).toList := by
  unfold contacts answer? Surroundings.outgoing
  split
  · cases h : (w.send r.endpoint r.message s).1 <;> rfl
  · rfl

theorem of_new [HostNames] {base : Url} {token : String}
    (hnew : TokenRefresher.new base token = .ok r) :
    base.join path = .ok r.endpoint ∧ r.refreshToken = token := by
  unfold TokenRefresher.new BackoffClient.urlOr at hnew
  cases hurl : base.join path with
  | error e =>
    rw [hurl] at hnew
    cases hnew
  | ok url =>
    rw [hurl] at hnew
    cases hnew
    exact ⟨rfl, rfl⟩

theorem origin_of_new [HostNames] {base : Url} {token : String}
    (hnew : TokenRefresher.new base token = .ok r) :
    r.endpoint.origin = base.origin := by
  have hnames : base.namesOrigin path = false := by
    have hcut : Url.cutScheme? (Url.cleaned path) = none := by decide
    unfold Url.namesOrigin
    simp only [hcut]
    decide
  exact Url.origin_of_join hnames (of_new hnew).1

theorem endpoint_of_new [HostNames] {base : Url} {token : String}
    (hnew : TokenRefresher.new base token = .ok r)
    (hscheme : base.scheme = "http" ∨ base.scheme = "https") :
    r.endpoint = base.at ["api", "auth", "refresh"] := by
  have hjoin := (of_new hnew).1
  cases hpath : base.path with
  | bare text =>
    -- A text for a path has no place for another path.
    have hcut : Url.cutScheme? (Url.cleaned path) = none := by decide
    unfold Url.join Url.read at hjoin
    simp only [hcut, hpath] at hjoin
    cases hjoin
  | segments names =>
    rw [join_refreshPath hscheme hpath, Except.ok.injEq] at hjoin
    exact hjoin.symm

/-! ## One refresh after the other -/

/-- The refresher after refreshes, each of which finds its surroundings in some state. -/
def after (w : Surroundings σ) (r : TokenRefresher) : List σ → TokenRefresher
  | [] => r
  | s :: rest => after w (r.refresh w s).2.1 rest

/-- The answers to these refreshes. -/
def answers (w : Surroundings σ) (r : TokenRefresher) : List σ → List (Option Response)
  | [] => []
  | s :: rest => r.answer? w s :: answers w (r.refresh w s).2.1 rest

/-- What came of these refreshes. -/
def outcomes (w : Surroundings σ) (r : TokenRefresher) : List σ → List (Except FetchError String)
  | [] => []
  | s :: rest => (r.refresh w s).1 :: outcomes w (r.refresh w s).2.1 rest

/-- The tokens that answers brought last. -/
def latest? (answers : List (Option Response)) : Option (String × String) :=
  (answers.filterMap brought?).getLast?

theorem latest?_append (before after : List (Option Response)) :
    latest? (before ++ after) = (latest? after).or (latest? before) := by
  unfold latest?
  rw [List.filterMap_append, List.getLast?_append]

theorem latest?_singleton (answer? : Option Response) : latest? [answer?] = brought? answer? := by
  unfold latest?
  cases h : brought? answer? <;> simp [h]

variable (w : Surroundings σ) (r : TokenRefresher) (past more : List σ)

theorem after_append : after w r (past ++ more) = after w (after w r past) more := by
  induction past generalizing r with
  | nil => rfl
  | cons s past ih => exact ih _

theorem answers_append :
    answers w r (past ++ more) = answers w r past ++ answers w (after w r past) more := by
  induction past generalizing r with
  | nil => rfl
  | cons s past ih => exact congrArg (_ :: ·) (ih _)

theorem outcomes_append :
    outcomes w r (past ++ more) = outcomes w r past ++ outcomes w (after w r past) more := by
  induction past generalizing r with
  | nil => rfl
  | cons s past ih => exact congrArg (_ :: ·) (ih _)

theorem after_singleton (s : σ) : after w r [s] = (r.accept (r.answer? w s)).2 := by
  unfold after after
  rw [refresh_eq]

theorem answers_singleton (s : σ) : answers w r [s] = [r.answer? w s] := rfl

theorem after_eq :
    after w r past =
      { r with refreshToken := ((latest? (answers w r past)).map (·.2)).getD r.refreshToken } := by
  induction past using List.reverseRecOn with
  | nil => rfl
  | append_singleton past s ih =>
    rw [after_append, after_singleton, answers_append, answers_singleton, latest?_append,
      latest?_singleton, (accept_brought _ _).2]
    cases brought? ((after w r past).answer? w s) with
    | none => exact ih
    | some tokens => exact congrArg (fun r : TokenRefresher => { r with refreshToken := tokens.2 }) ih

end TokenRefresher

/-! ## A client that refreshes its token -/

namespace BackoffClient

open TokenRefresher

variable {c c' : BackoffClient} {method : String} {url : Url} {body : Option Json} {isRetry : Bool}
  {t t' : TokenRefresher × σ} {log : List Contact} {answer : Option Response}
  {result : Except FetchError Response}

theorem Attempt.refresher_eq (h : Attempt (surround w) c method url body isRetry t log answer c' t') :
    t'.1 = t.1 := by
  have hsend {m : Request} {answer : Option Response} {next : TokenRefresher × σ}
      (h : (surround w).send url m t = (answer, next)) : next.1 = t.1 :=
    (congrArg (·.2.1) h).symm
  cases h with
  | unsendable => rfl
  | unanswered _ _ h => exact hsend h
  | answered _ _ h => exact hsend h

/-- What refreshes leave: the refresher after them, and the access token of the latest one that went
well. -/
structure Refreshed (w : Surroundings σ) (r : TokenRefresher) (token : Option String)
    (log : List Contact) (r' : TokenRefresher) (token' : Option String) (found : List σ) : Prop where
  refreshes_eq : Contact.refreshes log = outcomes w r found
  refresher_eq : r' = after w r found
  token_eq : token' = ((latest? (answers w r found)).map (·.1)).or token

theorem Refreshed.append {r r' r'' : TokenRefresher} {token token' token'' : Option String}
    {log log' : List Contact} {found found' : List σ} (h : Refreshed w r token log r' token' found)
    (h' : Refreshed w r' token' log' r'' token'' found') :
    Refreshed w r token (log ++ log') r'' token'' (found ++ found') where
  refreshes_eq := by
    rw [Contact.refreshes_append, outcomes_append, h.refreshes_eq, h'.refreshes_eq, h.refresher_eq]
  refresher_eq := by rw [after_append, ← h.refresher_eq, h'.refresher_eq]
  token_eq := by
    rw [h'.token_eq, h.token_eq, answers_append, latest?_append, h.refresher_eq, ← Option.or_assoc]
    cases latest? (answers w (after w r found) found') <;> rfl

theorem Attempt.refreshed (h : Attempt (surround w) c method url body isRetry t log answer c' t') :
    Refreshed w t.1 c.accessToken log t'.1 c'.accessToken [] where
  refreshes_eq := h.refreshes_eq
  refresher_eq := h.refresher_eq
  token_eq := h.accessToken_eq

theorem Refreshed.of_refresh {access : Except FetchError String} {r' : TokenRefresher} {s' : σ}
    (h : r.refresh w s = (access, r', s')) (token : Option String) :
    Refreshed w r token [.refreshed access] r' (access.toOption.or token) [s] where
  refreshes_eq := by
    change [access] = [(r.refresh w s).1]
    rw [h]
  refresher_eq := by
    change r' = (r.refresh w s).2.1
    rw [h]
  token_eq := by
    rw [refresh_eq, Prod.mk.injEq] at h
    rw [answers_singleton, latest?_singleton, ← (accept_brought r _).1, h.1]

theorem Course.refreshed (h : Course (surround w) c method url body t log result c' t') :
    ∃ found, Refreshed w t.1 c.accessToken log t'.1 c'.accessToken found := by
  cases h with
  | failed first => exact ⟨[], first.refreshed⟩
  | settled first => exact ⟨[], first.refreshed⟩
  | @unrefreshed log _ c₁ s₁ next _ e first _ hrefresh herror =>
    cases hrefresh
    exact ⟨[] ++ [s₁.2], first.refreshed.append (.of_refresh herror _)⟩
  | @retried log log' _ _ c₁ c₂ s₁ next s₂ _ token first _ hrefresh hok second =>
    cases hrefresh
    exact ⟨[] ++ [s₁.2] ++ [],
      (first.refreshed.append (.of_refresh hok _)).append second.refreshed⟩

variable [HostNames]

theorem request_refreshes (w : Surroundings σ) (c : BackoffClient) (method path : String)
    (body : Option Json) (t : TokenRefresher × σ) :
    ∃ log result c' t' found, Refreshed w t.1 c.accessToken log t'.1 c'.accessToken found ∧
      ∀ before, c.request (surround w).recorded method path body (t, before) =
        (result, c', t', before ++ log) := by
  obtain ⟨e, hnothing⟩ | ⟨url, log, result, c', t', -, hcourse, hwritten⟩ :=
    request_cases (surround w) c method path body t
  · exact ⟨[], .error e, c, t, [], ⟨rfl, rfl, rfl⟩, fun before => by
      rw [List.append_nil, hnothing]⟩
  · obtain ⟨found, hrefreshed⟩ := hcourse.refreshed
    exact ⟨log, result, c', t', found, hrefreshed, hwritten⟩

theorem session_refreshes (w : Surroundings σ) (c : BackoffClient) (asks : List Ask)
    (t : TokenRefresher × σ) :
    ∃ log c' t' found, Refreshed w t.1 c.accessToken log t'.1 c'.accessToken found ∧
      ∀ before, c.session (surround w).recorded asks (t, before) = (c', t', before ++ log) := by
  induction asks generalizing c t with
  | nil => exact ⟨[], c, t, [], ⟨rfl, rfl, rfl⟩, fun before => by rw [List.append_nil]; rfl⟩
  | cons a rest ih =>
    obtain ⟨log, result, c₁, t₁, found, hfirst, hrequest⟩ :=
      request_refreshes w c a.method a.path a.body t
    obtain ⟨log', c₂, t₂, found', hothers, hrest⟩ := ih c₁ t₁
    refine ⟨log ++ log', c₂, t₂, found ++ found', hfirst.append hothers, fun before => ?_⟩
    unfold session
    simp only [hrequest, hrest, List.append_assoc]

end BackoffClient

open TokenRefresher

/-- Whatever JSON the body of an answer is, the tokens are read from it exactly if each of the two
stands there once, as a text. -/
theorem tokensOf?_eq_some_iff {response : Response} {v : Json}
    (hread : Json.read? response.body = some v) (access next : String) :
    tokensOf? response = some (access, next) ↔
      Json.HoldsTexts [("access_token", access), ("refresh_token", next)] v := by
  let texts := [("access_token", access), ("refresh_token", next)]
  have hnames : (texts.map (·.1)).Nodup := by
    change ["access_token", "refresh_token"].Nodup
    decide
  have hfields : texts.map (.text ·.1) =
      [Json.FieldReader.text "access_token", .text "refresh_token"] := rfl
  rw [← Json.readRecord_texts_iff hnames hread, hfields]
  unfold tokensOf? Json.required?
  cases Json.readRecord [.text "access_token", .text "refresh_token"] response.body with
  | error => simp
  | ok ms => simp [texts, Json.asStr?_eq_some_iff, Option.bind_eq_some_iff]

/-- One refresh at a base with a token, as it is written down: the request and the only place that
it goes to, when the refresh goes well, and the refresher afterwards. -/
structure Renews (w : Surroundings σ) (base : Url) (token : String) (r : TokenRefresher)
    (log : List Contact) (result : Except FetchError String) (r' : TokenRefresher) : Prop where
  sends_eq : Contact.sends log = w.outgoing r.endpoint r.message
  /-- A server of the web is asked at one place. -/
  message_eq : base.scheme = "http" ∨ base.scheme = "https" →
    r.endpoint = base.at ["api", "auth", "refresh"] ∧ r.message = renewalMessage base token
  origin_eq : r.endpoint.origin = base.origin
  body_eq : r.message.body = (tokenBody token).text
  ok_iff : ∀ access, result = .ok access ↔ ∃ response next, Contact.answers log = [response] ∧
    isSuccess response.status = true ∧ tokensOf? response = some (access, next)
  kept : ∀ response access next, Contact.answers log = [response] →
    isSuccess response.status = true → tokensOf? response = some (access, next) →
    r' = { r with refreshToken := next }
  unchanged : ∀ e, result = .error e → r' = r

theorem renews_of_new [HostNames] {base : Url} {first : String}
    (hnew : TokenRefresher.new base first = .ok r) (w : Surroundings σ) (token : String) (s : σ) :
    let current : TokenRefresher := { r with refreshToken := token }
    Renews w base token current (current.contacts w s) (current.accept (current.answer? w s)).1
      (current.accept (current.answer? w s)).2 := by
  intro current
  obtain ⟨hresult, hkept⟩ := current.accept_brought (current.answer? w s)
  have hbrings (access next : String) :
      (∃ response, Contact.answers (current.contacts w s) = [response] ∧
        isSuccess response.status = true ∧ tokensOf? response = some (access, next)) ↔
      brought? (current.answer? w s) = some (access, next) := by
    rw [answers_contacts, brought?_eq_some_iff]
    simp only [Option.toList_eq_singleton_iff]
  have hmessage (hscheme : base.scheme = "http" ∨ base.scheme = "https") :
      current.endpoint = base.at ["api", "auth", "refresh"] ∧
        current.message = renewalMessage base token := by
    have hendpoint := endpoint_of_new hnew hscheme
    have hcurrent : current = ⟨base.at ["api", "auth", "refresh"], token⟩ := by
      rw [← hendpoint]
    rw [hcurrent]
    exact ⟨rfl, message_renewal base token⟩
  have hsends := sends_contacts w current s
  have horigin : current.endpoint.origin = base.origin := by
    rw [← origin_of_new hnew]
  -- From here on only what was brought matters, not how it was accepted.
  generalize current.accept (current.answer? w s) = outcome at hresult hkept
  obtain ⟨result, r'⟩ := outcome
  refine ⟨hsends, hmessage, horigin, rfl, fun access => ?_, ?_, ?_⟩
  · rw [exists_comm]
    simp only [hbrings]
    cases result with
    | error e =>
      have hnone := Option.map_eq_none_iff.mp hresult.symm
      simp [hnone]
    | ok access' =>
      obtain ⟨tokens, hbrought, rfl⟩ := Option.map_eq_some_iff.mp hresult.symm
      simp [hbrought, Prod.ext_iff, eq_comm]
  · intro response access next hanswer hstatus htokens
    rw [(hbrings access next).mp ⟨response, hanswer, hstatus, htokens⟩] at hkept
    exact hkept
  · rintro e rfl
    rw [Option.map_eq_none_iff.mp hresult.symm] at hkept
    exact hkept

/-- The refresh token of the latest answer that brought one, or the first one if none did. -/
def tokenAfter (first : String) (answers : List (Option Response)) : String :=
  ((latest? answers).map (·.2)).getD first

/-- A new refresher at a base is asked for tokens, one time after the other, whatever is answered.
Each request goes to the place at the base, with the refresh token of the latest refresh before it
that went well. The refresh goes well exactly if the answer is a success with both tokens, and keeps
the refresher as it is if not. A client that refreshes its token there bears the access token of the
latest refresh that went well, or still its own. -/
theorem refreshes_use_latest_token [HostNames] (w : Surroundings σ) {base : Url} {first : String}
    (hnew : TokenRefresher.new base first = .ok r) :
    (∀ past s, ∃ log result r' s' answer?,
      (after w r past).refresh w.recorded (s, []) = (result, r', s', log) ∧
      r' = after w r (past ++ [s]) ∧
      answers w r (past ++ [s]) = answers w r past ++ [answer?] ∧
      Contact.answers log = answer?.toList ∧
      Renews w base (tokenAfter first (answers w r past)) (after w r past) log result r') ∧
    (∀ (c : BackoffClient) asks s, ∃ log c' r' s' found,
      c.session (surround w).recorded asks ((r, s), []) = (c', (r', s'), log) ∧
      BackoffClient.Refreshed w r c.accessToken log r' c'.accessToken found) ∧
    ∀ (response : Response) v access next, Json.read? response.body = some v →
      (tokensOf? response = some (access, next) ↔
        Json.HoldsTexts [("access_token", access), ("refresh_token", next)] v) := by
  refine ⟨fun past s => ?_, fun c asks s => ?_, fun response v access next hread =>
    tokensOf?_eq_some_iff hread access next⟩
  · have hcurrent : after w r past =
        { r with refreshToken := tokenAfter first (answers w r past) } := by
      rw [after_eq, (of_new hnew).2]
      rfl
    refine ⟨_, _, _, _, (after w r past).answer? w s, refresh_recorded w _ s [], ?_, ?_, ?_, ?_⟩
    · rw [after_append, after_singleton]
    · rw [answers_append, answers_singleton]
    · exact answers_contacts w _ s
    · rw [hcurrent]
      exact renews_of_new hnew w _ s
  · obtain ⟨log, c', t', found, hrefreshed, hsession⟩ :=
      BackoffClient.session_refreshes w c asks (r, s)
    exact ⟨log, c', t'.1, t'.2, found, hsession [], hrefreshed⟩

/-- Surroundings that give one answer after the other. -/
def answering : Surroundings (List Response) where
  now _ := .epoch
  jitter _ _ := 0
  admits _ _ := true
  send _ _ answers := (answers.head?, answers.tail)
  refresh? := none

/-- After a refresh that went well, one that is answered with an error and one whose answer has no
tokens, the fourth request still has the token of the first answer. -/
theorem refreshes_use_latest_token_of_four_answers :
    let _ : HostNames := .plain
    let w := answering
    let bring (access next : String) : Response := .json 200 (.obj [("refresh_token", .str next),
      ("expires_in", .int 900), ("access_token", .str access)])
    let r : TokenRefresher := ⟨BackoffClient.exampleBase.at ["api", "auth", "refresh"], "first"⟩
    let past := [[bring "a" "second"], [.ofStatus 503], [.json 200 (.obj [])]]
    TokenRefresher.new BackoffClient.exampleBase "first" = .ok r ∧
      ∃ log r' s', (after w r past).refresh w.recorded ([bring "b" "third"], []) =
          (.ok "b", r', s', log) ∧
        Contact.sends log = [(r.endpoint, renewalMessage BackoffClient.exampleBase "second")] ∧
        r'.refreshToken = "third" := by
  intro _ w bring r past
  have hnew : TokenRefresher.new BackoffClient.exampleBase "first" = .ok r :=
    TokenRefresher.new_of_http (.inl rfl) rfl "first"
  obtain ⟨log, result, r', s', answer?, hrun, -, -, -, hrenews⟩ :=
    (refreshes_use_latest_token w hnew).1 past [bring "b" "third"]
  have hgoes : tokenAfter "first" (answers w r past) = "second" ∧
      ((after w r past).refresh w.recorded ([bring "b" "third"], [])).1 = .ok "b" ∧
      ((after w r past).refresh w.recorded ([bring "b" "third"], [])).2.1.refreshToken =
        "third" := by decide +kernel
  rw [hrun] at hgoes
  obtain ⟨htoken, rfl, hnext⟩ := hgoes
  rw [htoken] at hrenews
  obtain ⟨hendpoint, hmessage⟩ := hrenews.message_eq (.inl rfl)
  have hsends := hrenews.sends_eq
  rw [hendpoint, hmessage] at hsends
  exact ⟨hnew, log, r', s', hrun, hsends, hnext⟩

end Cadence
