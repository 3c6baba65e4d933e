import Cadence.Client.Loopback
import Cadence.Proofs.Client.Message
import Cadence.Proofs.Http.Renewal
import Cadence.Proofs.Job.Ids
import Cadence.Proofs.Job.Poll
import Cadence.Proofs.Job.Wire

/-!
# The trigger at the service

A client whose access token is refused triggers a poll at the service itself: the first request is
refused, the refresh token brings new tokens, and the second request polls the jobs, if its bearer
may do that.
-/

namespace Cadence

open Http

/-! ## The trigger at the service -/

namespace Http

variable {s : Service} {a : Arrival} {r : Request} {moments : Nat → Moment} {n : Nat}
  {store : JobStore}

theorem posts_run (hmethod : r.method = "POST") (hpath : r.path = Trigger.runPath) :
    Posts s r (.guarded .run) where
  method := hmethod
  place := by rw [hpath]; rfl
  takes := rfl

theorem respond_run_of_refused (hposts : Posts s r (.guarded .run)) {fault : ServiceError}
    (hcaller : authenticate s a r = .error fault) :
    (respond s a r).run moments n store = (some (finished s a r (.error fault)), store) := by
  rw [respond_run hposts.place (by rw [hposts.method]; decide)]
  unfold replyOf
  rw [hcaller]
  rfl

theorem respond_run_of_admin {caller : Principal} (hposts : Posts s r (.guarded .run))
    (hcaller : authenticate s a r = .ok caller) (hadmin : caller.role.isAdmin = true)
    (moments : Nat → Moment) (n : Nat) (store : JobStore) :
    (respond s a r).run moments n store =
      (((poll s.batchLimit a.now a.elapsedMs).run moments n store).1.map fun report =>
          finished s a r (report.map fun report => .json 200 (RunResponse.ofReport report).toJson),
        ((poll s.batchLimit a.now a.elapsedMs).run moments n store).2) := by
  have hwork (work : StoreScript Reply) : asAdmin caller work = work := by
    unfold asAdmin
    rw [(authorize_cronAdmin caller).mpr hadmin]
  have hreply : replyOf s a r (.guarded .run) =
      (poll s.batchLimit a.now a.elapsedMs).bind fun report =>
        .done (report.map fun report => .json 200 (RunResponse.ofReport report).toJson) := by
    rw [hposts.replyOf_eq hcaller]
    unfold guardedReply
    rw [hwork]
    rfl
  rw [respond_run hposts.place (by rw [hposts.method]; decide), hreply, StoreScript.run_bind_done,
    Option.map_map]
  rfl

theorem respond_run_of_other {caller : Principal} (hposts : Posts s r (.guarded .run))
    (hcaller : authenticate s a r = .ok caller) (hadmin : caller.role.isAdmin = false)
    (moments : Nat → Moment) (n : Nat) (store : JobStore) :
    ∃ message, (respond s a r).run moments n store =
      (some (finished s a r (.error (.forbidden message))), store) := by
  have hwork (work : StoreScript Reply) :
      ∃ message, asAdmin caller work = .done (.error (.forbidden message)) := by
    have hdenied : (Policy.evaluate caller .cronAdmin).allowed = false := by
      unfold Policy.evaluate Policy.diagnose Policy.adminRules Policy.walk Policy.Rule.verdict?
      simp [hadmin]
    unfold asAdmin Policy.authorize
    rw [hdenied]
    exact ⟨_, rfl⟩
  obtain ⟨message, hmessage⟩ := hwork _
  refine ⟨message, ?_⟩
  rw [respond_run hposts.place (by rw [hposts.method]; decide), hposts.replyOf_eq hcaller]
  unfold guardedReply
  rw [hmessage]
  rfl

end Http

/-! ## One message at the service -/

section Messages

variable {service : Service} {arrival : Nat → Arrival} {draw : Nat → Nat} {url : Url}
  {l : Loopback} {refresher : TokenRefresher}

theorem Loopback.deliver_of_run {a : Arrival} {r : Request} {coded? response? : Option Response}
    {store : JobStore}
    (hrun : (respond service a r).run (fun _ => ⟨a.now, fun _ => none⟩) 0 l.store = (coded?, store))
    (hread : coded?.bind service.coding.read? = response?) :
    deliver service a r l = (response?, ⟨store, l.received ++ [r]⟩) := by
  unfold deliver
  rw [hrun, ← hread]

/-- What lies around the client: the service as the network, and the place for new tokens at it. -/
abbrev around (service : Service) (arrival : Nat → Arrival) (draw : Nat → Nat) :
    Surroundings (TokenRefresher × Loopback) :=
  TokenRefresher.surround (Loopback.surroundings service arrival draw)

theorem refresh?_around :
    (around service arrival draw).refresh? =
      some fun s => TokenRefresher.refresh (Loopback.surroundings service arrival draw) s.1 s.2 :=
  rfl

theorem send_of_run (draw : Nat → Nat) (url : Url) (refresher : TokenRefresher) {r : Request}
    {coded? response? : Option Response} {store : JobStore}
    (hrun : (respond service (arrival l.received.length) r).run
      (fun _ => ⟨(arrival l.received.length).now, fun _ => none⟩) 0 l.store = (coded?, store))
    (hread : coded?.bind service.coding.read? = response?) :
    (around service arrival draw).send url r (refresher, l) =
      (response?, refresher, ⟨store, l.received ++ [r]⟩) := by
  change ((Loopback.deliver service (arrival l.received.length) r l).1, refresher,
    (Loopback.deliver service (arrival l.received.length) r l).2) = _
  rw [Loopback.deliver_of_run hrun hread]

theorem posts_triggerMessage (service : Service) (token : String) (isRetry : Bool) :
    Posts service (triggerMessage token isRetry) (.guarded .run) :=
  have hplain : (Trigger.runPath.toList.all fun c => c ≠ '?' && c ≠ '#') = true := by decide
  posts_run rfl (path_of_plain hplain)

theorem posts_renewalMessage (service : Service) (base : Url) (token : String) :
    Posts service (renewalMessage base token) (.toAll .refresh) :=
  have hplain : (TokenRefresher.path.toList.all fun c => c ≠ '?' && c ≠ '#') = true := by decide
  posts_refresh rfl (path_of_plain hplain)

theorem bringsToken_renewalMessage {base : Url} (hweb : base.IsWeb) (token : String) :
    BringsToken (renewalMessage base token) token where
  type := by
    rw [hweb.renewalMessage_headers]
    rfl
  body := rfl

theorem authenticate_triggerMessage (service : Service) (a : Arrival) {token : String}
    (hgraphic : ∀ c ∈ token.toList, IsGraphic c) (isRetry : Bool) :
    authenticate service a (triggerMessage token isRetry) =
      ((Token.validate a.now.unixSeconds service.tokens.secret (some .access) token).mapError
        Token.Fault.toError).map (·.principal) :=
  authenticate_bearer (fun c hc => (hgraphic c hc).isVisible) rfl

theorem send_trigger_refused (draw : Nat → Nat) (url : Url) (refresher : TokenRefresher)
    {token : String} (hgraphic : ∀ c ∈ token.toList, IsGraphic c) {f : Token.Fault}
    (hrefused : Token.validate (arrival l.received.length).now.unixSeconds service.tokens.secret
      (some .access) token = .error f) (isRetry : Bool) :
    ∃ response, response.status = BackoffClient.unauthorized ∧
      (around service arrival draw).send url (triggerMessage token isRetry) (refresher, l) =
        (some response, refresher, ⟨l.store, l.received ++ [triggerMessage token isRetry]⟩) := by
  have hposts := posts_triggerMessage service token isRetry
  have hcaller := authenticate_triggerMessage service (arrival l.received.length) hgraphic isRetry
  rw [hrefused] at hcaller
  obtain ⟨response, hread, hstatus⟩ := hposts.read_error (arrival l.received.length) f.toError
  refine ⟨response, hstatus.trans ?_,
    send_of_run draw url refresher (respond_run_of_refused hposts hcaller) hread⟩
  rfl

theorem refresh_of_reply (service : Service) (arrival : Nat → Arrival) (draw : Nat → Nat)
    (l : Loopback) (base : Url) (token : String) {reply : Reply}
    (hreply : (Http.refresh service (arrival l.received.length) (renewalMessage base token)).answer? =
      some reply) {response : Response}
    (hread : service.coding.read? (finished service (arrival l.received.length)
      (renewalMessage base token) reply) = some response) :
    let r : TokenRefresher := ⟨base.at ["api", "auth", "refresh"], token⟩
    let heard := r.accept (some response)
    r.refresh (Loopback.surroundings service arrival draw) l =
      (heard.1, heard.2, ⟨l.store, l.received ++ [renewalMessage base token]⟩) := by
  have hrun := respond_refresh (a := arrival l.received.length)
    (posts_renewalMessage service base token)
    (fun _ => ⟨(arrival l.received.length).now, fun _ => none⟩) 0 l.store
  rw [hreply] at hrun
  have hdeliver := Loopback.deliver_of_run hrun hread
  intro r heard
  unfold TokenRefresher.refresh
  simp only [r, message_renewal]
  unfold Loopback.surroundings
  simp only [hdeliver, if_true]
  rfl

theorem refresh_of_valid (draw : Nat → Nat) {base : Url} (hweb : base.IsWeb) {token : String}
    {claims : Claims} {pair : Token.Pair} (hsize : token.toList.length + 20 ≤ maxBody)
    (hvalid : Token.validate (arrival l.received.length).now.unixSeconds service.tokens.secret
      (some .refresh) token = .ok claims)
    (hpair : Token.issuePair? claims.principal service.tokens.secret
      service.tokens.accessExpiration service.tokens.refreshExpiration
      (arrival l.received.length).now = some pair) :
    TokenRefresher.refresh (Loopback.surroundings service arrival draw)
      ⟨base.at ["api", "auth", "refresh"], token⟩ l =
      (.ok pair.access, ⟨base.at ["api", "auth", "refresh"], pair.refresh⟩,
        ⟨l.store, l.received ++ [renewalMessage base token]⟩) := by
  obtain ⟨⟨_, hcontent⟩, -⟩ := Token.validate_eq_ok hvalid
  have hplain : ∀ c ∈ token.toList, IsPlain c := fun c hc =>
    isPlain_of_isTokenChar (Token.isTokenChar_of_content hcontent c hc)
  have hne : token ≠ "" := by
    rintro rfl
    cases hcontent
  have hpresents : refreshTokenOf (renewalMessage base token) = .ok token :=
    refreshTokenOf_tokenBody (bringsToken_renewalMessage hweb token)
      (by rw [utf8ByteSize_tokenBody hplain]; exact hsize) hne
  have hreply := refresh_answers_ok_iff.mpr ⟨_, pair,
    refreshed_eq_ok_iff.mpr ⟨token, claims, hpresents, hvalid, rfl⟩, hpair, rfl⟩
  obtain ⟨response, hread, hstatus, hbody⟩ := (posts_renewalMessage service base token).read_json
    (arrival l.received.length)
    (Token.Response.bearer pair service.tokens.accessExpiration).toJson
  rw [refresh_of_reply service arrival draw l base token hreply hread]
  unfold TokenRefresher.accept
  simp only [hstatus, tokensOf?_bearer hbody]
  rfl

theorem refresh_of_oversized (service : Service) (arrival : Nat → Arrival) (draw : Nat → Nat)
    (l : Loopback) {base : Url} (hweb : base.IsWeb) {token : String}
    (hsize : maxBody < (tokenBody token).text.utf8ByteSize) :
    TokenRefresher.refresh (Loopback.surroundings service arrival draw)
      ⟨base.at ["api", "auth", "refresh"], token⟩ l =
      (.error (.refresh "refresh endpoint answered 400 Bad Request"),
        ⟨base.at ["api", "auth", "refresh"], token⟩,
        ⟨l.store, l.received ++ [renewalMessage base token]⟩) := by
  let fault := ServiceError.badRequest "Failed to buffer the request body"
  have hrefused : refreshed service (arrival l.received.length) (renewalMessage base token) =
      .error fault := by
    unfold refreshed
    rw [refreshTokenOf_of_oversized (bringsToken_renewalMessage hweb token) hsize]
    rfl
  have hreply : (Http.refresh service (arrival l.received.length)
      (renewalMessage base token)).answer? = some (.error fault) := by
    rw [refresh_of_refused hrefused]
    rfl
  obtain ⟨response, hread, hfault⟩ :=
    (posts_renewalMessage service base token).read_error (arrival l.received.length) fault
  have hstatus : response.status = 400 := hfault
  rw [refresh_of_reply service arrival draw l base token hreply hread]
  unfold TokenRefresher.accept
  simp only [hstatus]
  rfl

end Messages

/-! ## The report -/

theorem inRange_of_turns {store : JobStore} (hrange : store.IdsInRange) {limit : Int}
    (hlimit : limit ≤ Text.i64Max) {moments : Nat → Moment} {now : Instant} {k k' : Nat}
    {os : List JobOutcome} {rows : List Job}
    (hturns : Poll.Turns moments now k (store.listActive limit) os rows k') {durationMs : Nat}
    (hduration : durationMs ≤ Text.u64Max) :
    (RunResponse.ofReport ⟨.ofOutcomes os, os, durationMs⟩).InRange := by
  have hlength : os.length ≤ Text.u64Max := by
    have hsame := congrArg List.length hturns.jobIds_eq
    rw [List.length_map, List.length_map] at hsame
    have htake : (store.listActive limit).length ≤ limit.toNat := List.length_take_le _ _
    unfold Text.i64Max at hlimit
    unfold Text.u64Max
    omega
  have hcount (s : OutcomeStatus) : (os.filter (·.status == s)).length ≤ Text.u64Max :=
    (List.length_filter_le _ _).trans hlength
  refine ⟨fun o ho => hrange _ ?_, ⟨hlength, hcount _, hcount _, hcount _⟩, hduration⟩
  have hid : o.jobId ∈ (store.listActive limit).map (·.id) :=
    hturns.jobIds_eq ▸ List.mem_map_of_mem ho
  exact List.map_subset _ (store.listActive_sublist limit).subset hid

theorem reportOf_json {response : Response} (hstatus : response.status = 200)
    {report : RunResponse} (hbody : response.body = report.toJson.text) (hrange : report.InRange) :
    Trigger.reportOf response = .ok report := by
  unfold Trigger.reportOf
  rw [hstatus, hbody, RunResponse.read_text hrange]
  rfl

theorem reportOf_of_forbidden {response : Response} (hstatus : response.status = 403) :
    Trigger.reportOf response = .error (.status 403 response.body) := by
  unfold Trigger.reportOf
  rw [hstatus]
  rfl

/-! ## The exchange -/

variable {service : Service} {arrival : Nat → Arrival} {p : Principal} {access renewal : String}

/-- Up to some second, a token is accepted for a purpose as one of a principal. -/
def Token.HoldsUntil (secret token : String) (kind : TokenKind) (p : Principal) (last : Int) :
    Prop :=
  ∀ now ≤ last, ∃ claims, validate now secret (some kind) token = .ok claims ∧
    claims.principal = p

/-- The end of a lifetime can be written down: it is an instant, and not before 1970. -/
def Token.EndsInRange (now : Instant) (hours : Int) : Prop :=
  ∃ expiry : Instant, now.addSeconds? (hours * 3600) = some expiry ∧ 0 ≤ expiry.unixSeconds

theorem Token.holdsUntil_of_expiry (secret : String) (p : Principal) (kind : TokenKind)
    {now expiry : Instant} {hours : Int} (hhours : 0 < hours)
    (hexpiry : now.addSeconds? (hours * 3600) = some expiry) (hnonneg : 0 ≤ expiry.unixSeconds) :
    HoldsUntil secret (sign secret ⟨p, kind, now.unixSeconds, expiry.unixSeconds⟩) kind p
      (now.unixSeconds + 3600 * hours + leeway) := by
  have hends := Instant.unixSeconds_of_addSeconds? (by omega) hexpiry
  have hcarries := carries_sign secret (c := ⟨p, kind, now.unixSeconds, expiry.unixSeconds⟩)
    ⟨now.unixSeconds_inRange, expiry.unixSeconds_inRange⟩
  intro later hlater
  exact ⟨_, hcarries.accepted hnonneg (by simp only; omega) _ (by simp), rfl⟩

/-- The access token of a trigger is refused, and the refresh token is one of a principal. -/
structure Renewable (service : Service) (arrival : Nat → Arrival) (p : Principal)
    (access renewal : String) : Prop where
  graphic : ∀ c ∈ access.toList, IsGraphic c
  refused : ∃ f, Token.validate (arrival 0).now.unixSeconds service.tokens.secret (some .access)
    access = .error f
  holds : ∃ claims, Token.validate (arrival 1).now.unixSeconds service.tokens.secret
    (some .refresh) renewal = .ok claims ∧ claims.principal = p
  /-- there is room for the refresh token in a body -/
  fits : renewal.toList.length + 20 ≤ maxBody
  positive : 0 < service.tokens.accessExpiration ∧ 0 < service.tokens.refreshExpiration
  inRange : Token.EndsInRange (arrival 1).now service.tokens.accessExpiration ∧
    Token.EndsInRange (arrival 1).now service.tokens.refreshExpiration
  /-- the second trigger comes while the new access token lasts -/
  prompt : (arrival 2).now.unixSeconds ≤
    (arrival 1).now.unixSeconds + 3600 * service.tokens.accessExpiration + Token.leeway

theorem Renewable.issued (h : Renewable service arrival p access renewal) :
    ∃ claims pair,
      Token.validate (arrival 1).now.unixSeconds service.tokens.secret (some .refresh) renewal =
        .ok claims ∧
      Token.issuePair? claims.principal service.tokens.secret service.tokens.accessExpiration
        service.tokens.refreshExpiration (arrival 1).now = some pair ∧
      (∀ c ∈ pair.access.toList, IsGraphic c) ∧
      Token.HoldsUntil service.tokens.secret pair.access .access p ((arrival 1).now.unixSeconds +
        3600 * service.tokens.accessExpiration + Token.leeway) ∧
      Token.HoldsUntil service.tokens.secret pair.refresh .refresh p ((arrival 1).now.unixSeconds +
        3600 * service.tokens.refreshExpiration + Token.leeway) := by
  obtain ⟨⟨accessExpiry, haccess, haccess'⟩, refreshExpiry, hrefresh, hrefresh'⟩ := h.inRange
  obtain ⟨claims, hvalid, rfl⟩ := h.holds
  have hpair := Token.issuePair?_of_expiry claims.principal service.tokens.secret haccess hrefresh
  refine ⟨claims, _, hvalid, hpair, ?_, ?_, ?_⟩
  · exact fun c hc => isGraphic_of_isTokenChar (Token.isTokenChar_of_mem_sign hc)
  · exact Token.holdsUntil_of_expiry _ _ _ h.positive.1 haccess haccess'
  · exact Token.holdsUntil_of_expiry _ _ _ h.positive.2 hrefresh hrefresh'

section Exchange

variable [HostNames]

theorem request_goes_on {base : Url} {names : List String} (hweb : base.IsWeb)
    (hpath : base.path = .segments names) (hgraphic : ∀ c ∈ access.toList, IsGraphic c)
    {f : Token.Fault} (hrefused : Token.validate (arrival 0).now.unixSeconds service.tokens.secret
      (some .access) access = .error f) (config : BackoffSettings) (draw : Nat → Nat)
    (refresher : TokenRefresher) (store : JobStore) :
    ∃ b refused,
      (⟨base, .new config, some access⟩ : BackoffClient).request (around service arrival draw) "POST"
        Trigger.runPath (some (.obj [])) (refresher, ⟨store, []⟩) =
      BackoffClient.retry (around service arrival draw) ⟨base, b, some access⟩ "POST"
        (base.at ["api", "cron", "run"]) (some (.obj [])) refused
        (refresher, ⟨store, [triggerMessage access false]⟩) := by
  obtain ⟨refused, hstatus, hfirst⟩ := send_trigger_refused (l := ⟨store, []⟩) draw
    (base.at ["api", "cron", "run"]) refresher hgraphic hrefused false
  obtain ⟨b, hrequest⟩ := BackoffClient.request_of_refused
    (c := ⟨base, .new config, some access⟩) (join_runPath hweb hpath) rfl
    (message_trigger hweb access false) rfl hfirst hstatus
  exact ⟨b, refused, hrequest⟩

theorem run_of_renewed {base : Url} {names : List String} (hweb : base.IsWeb)
    (hpath : base.path = .segments names) {claims : Claims} {pair : Token.Pair}
    (h : Renewable service arrival p access renewal)
    (hvalid : Token.validate (arrival 1).now.unixSeconds service.tokens.secret (some .refresh)
      renewal = .ok claims)
    (hpair : Token.issuePair? claims.principal service.tokens.secret
      service.tokens.accessExpiration service.tokens.refreshExpiration (arrival 1).now = some pair)
    (config : BackoffSettings) (draw : Nat → Nat) {store store' : JobStore}
    {coded? response? : Option Response}
    (hrun : (respond service (arrival 2) (triggerMessage pair.access true)).run
      (fun _ => ⟨(arrival 2).now, fun _ => none⟩) 0 store = (coded?, store'))
    (hread : coded?.bind service.coding.read? = response?) :
    ∃ b, Trigger.run (around service arrival draw) ⟨base, .new config, some access⟩
        (⟨base.at ["api", "auth", "refresh"], renewal⟩, ⟨store, []⟩) =
      (response?.elim (.error .transport) Trigger.reportOf, ⟨base, b, some pair.access⟩,
        ⟨base.at ["api", "auth", "refresh"], pair.refresh⟩,
        ⟨store', [triggerMessage access false, renewalMessage base renewal,
          triggerMessage pair.access true]⟩) := by
  obtain ⟨f, hrefused⟩ := h.refused
  obtain ⟨b, refused, hrequest⟩ := request_goes_on hweb hpath h.graphic hrefused config draw
    ⟨base.at ["api", "auth", "refresh"], renewal⟩ store
  have hrenewed := refresh_of_valid (l := ⟨store, [triggerMessage access false]⟩) draw hweb h.fits
    hvalid hpair
  have hsecond := send_of_run
    (l := ⟨store, [triggerMessage access false, renewalMessage base renewal]⟩) draw
    (base.at ["api", "cron", "run"]) ⟨base.at ["api", "auth", "refresh"], pair.refresh⟩ hrun hread
  obtain ⟨b', hretry⟩ := BackoffClient.retry_of_token (s := (_, _)) (c := ⟨base, b, some access⟩)
    refresh?_around hrenewed (message_trigger hweb pair.access true) rfl hsecond refused
  refine ⟨b', ?_⟩
  unfold Trigger.run
  rw [hrequest.trans hretry]
  cases response? <;> rfl

theorem run_of_oversized (service : Service) (arrival : Nat → Arrival) {base : Url}
    {names : List String} (hweb : base.IsWeb) (hpath : base.path = .segments names)
    (hgraphic : ∀ c ∈ access.toList, IsGraphic c)
    {f : Token.Fault} (hrefused : Token.validate (arrival 0).now.unixSeconds service.tokens.secret
      (some .access) access = .error f)
    (hsize : maxBody < (tokenBody renewal).text.utf8ByteSize) (config : BackoffSettings)
    (draw : Nat → Nat) (store : JobStore) :
    ∃ b, Trigger.run (around service arrival draw) ⟨base, .new config, some access⟩
        (⟨base.at ["api", "auth", "refresh"], renewal⟩, ⟨store, []⟩) =
      (.error (.refresh "refresh endpoint answered 400 Bad Request"), ⟨base, b, some access⟩,
        ⟨base.at ["api", "auth", "refresh"], renewal⟩,
        ⟨store, [triggerMessage access false, renewalMessage base renewal]⟩) := by
  obtain ⟨b, refused, hrequest⟩ := request_goes_on hweb hpath hgraphic hrefused config draw
    ⟨base.at ["api", "auth", "refresh"], renewal⟩ store
  have hfails := refresh_of_oversized service arrival draw ⟨store, [triggerMessage access false]⟩
    hweb hsize
  refine ⟨b, ?_⟩
  unfold Trigger.run
  rw [hrequest, BackoffClient.retry_of_error (s := (_, _)) refresh?_around hfails]
  rfl

/-- A client with a refused access token and a refresh token that holds sends three requests. They
poll the jobs once if the principal is an administrator, and the client gets the report, unless the
poll breaks off at a full counter; else they are forbidden to, and the jobs stay as they are. The
tokens that the client goes on with are the principal's. -/
theorem trigger_at_service (draw : Nat → Nat) {baseUrl : String} {base : Url}
    (config : BackoffSettings) {store : JobStore} (hbase : Url.parse baseUrl = .ok base)
    (hweb : base.IsWeb) (hids : store.DistinctIds) (hrange : store.IdsInRange)
    (hlimit : service.batchLimit ≤ Text.i64Max) (hduration : (arrival 2).elapsedMs ≤ Text.u64Max)
    (h : Renewable service arrival p access renewal) :
    ∃ client refresher client' refresher' l result, ∃ pair : Token.Pair,
      BackoffClient.new baseUrl config (some access) = .ok client ∧
      TokenRefresher.new client.baseUrl renewal = .ok refresher ∧
      Trigger.run (around service arrival draw) client (refresher, ⟨store, []⟩) =
        (result, client', refresher', l) ∧
      l.received = [triggerMessage access false, renewalMessage base renewal,
        triggerMessage pair.access true] ∧
      (if p.role.isAdmin = true then
        ∃ polled, (poll service.batchLimit (arrival 2).now (arrival 2).elapsedMs).run
            (fun _ => ⟨(arrival 2).now, fun _ => none⟩) 0 store = (polled, l.store) ∧
          ((∃ report, polled = some (.ok report) ∧ result = .ok (.ofReport report)) ∨
            polled = none ∧ result = .error .transport ∧
              ∃ j ∈ store.rows, ¬ (j.executionCount < Text.i32Max ∧ j.errorCount < Text.i32Max))
      else (∃ body, result = .error (.status 403 body)) ∧ l.store = store) ∧
      client'.accessToken = some pair.access ∧ refresher'.refreshToken = pair.refresh ∧
      Token.HoldsUntil service.tokens.secret pair.access .access p ((arrival 1).now.unixSeconds +
        3600 * service.tokens.accessExpiration + Token.leeway) ∧
      Token.HoldsUntil service.tokens.secret pair.refresh .refresh p ((arrival 1).now.unixSeconds +
        3600 * service.tokens.refreshExpiration + Token.leeway) := by
  obtain ⟨names, hpath⟩ := Url.path_of_parse hbase hweb.isSpecial.1
  obtain ⟨claims, pair, hvalid, hpair, hgraphic, haccess, hrefresh⟩ := h.issued
  have hclient := BackoffClient.new_of_parse hbase config (some access)
  have hrefresher := TokenRefresher.new_of_http hweb.scheme hpath renewal
  have hposts := posts_triggerMessage service pair.access true
  -- The third request bears the new access token, which is the principal's.
  have hcaller : authenticate service (arrival 2) (triggerMessage pair.access true) = .ok p := by
    obtain ⟨found, hfound, rfl⟩ := haccess (arrival 2).now.unixSeconds h.prompt
    rw [authenticate_triggerMessage _ _ hgraphic, hfound]
    rfl
  let moments (_ : Nat) : Moment := ⟨(arrival 2).now, fun _ => none⟩
  cases hrole : p.role.isAdmin with
  | true =>
    have hfetch : (moments 0).fault? (.listActive service.batchLimit) = none := rfl
    have hanswer := respond_run_of_admin hposts hcaller hrole moments 0 store
    -- The poll has a report, which the client reads back, or breaks off without an answer.
    rcases Poll.poll_run hids moments hfetch (arrival 2).now (arrival 2).elapsedMs with
      ⟨os, rows, k', hturns, hpoll⟩ | ⟨rows, hbroken, hpoll⟩
    · obtain ⟨response, hread, hstatus, hbody⟩ := hposts.read_json (arrival 2)
        (RunResponse.ofReport ⟨.ofOutcomes os, os, (arrival 2).elapsedMs⟩).toJson
      have hreport := reportOf_json hstatus hbody (inRange_of_turns hrange hlimit hturns hduration)
      rw [hpoll] at hanswer
      change _ = (some (finished service (arrival 2) (triggerMessage pair.access true)
        (.ok (.json 200 (RunResponse.ofReport ⟨.ofOutcomes os, os, (arrival 2).elapsedMs⟩).toJson))),
        _) at hanswer
      obtain ⟨b, hrun⟩ := run_of_renewed hweb hpath h hvalid hpair config draw hanswer hread
      rw [Option.elim_some, hreport] at hrun
      exact ⟨_, _, _, _, _, _, pair, hclient, hrefresher, hrun, rfl,
        ⟨_, hpoll, .inl ⟨_, rfl, rfl⟩⟩, rfl, rfl, haccess, hrefresh⟩
    · rw [hpoll] at hanswer
      obtain ⟨b, hrun⟩ := run_of_renewed hweb hpath h hvalid hpair config draw hanswer rfl
      obtain ⟨j, hj, hfull⟩ := hbroken.exists_full
      exact ⟨_, _, _, _, _, _, pair, hclient, hrefresher, hrun, rfl,
        ⟨_, hpoll, .inr ⟨rfl, rfl, j, JobStore.mem_of_mem_listActive hj, hfull⟩⟩, rfl, rfl, haccess,
        hrefresh⟩
  | false =>
    obtain ⟨message, hanswer⟩ := respond_run_of_other hposts hcaller hrole moments 0 store
    obtain ⟨response, hread, hstatus⟩ := hposts.read_error (arrival 2) (.forbidden message)
    obtain ⟨b, hrun⟩ := run_of_renewed hweb hpath h hvalid hpair config draw hanswer hread
    rw [Option.elim_some, reportOf_of_forbidden hstatus] at hrun
    exact ⟨_, _, _, _, _, _, pair, hclient, hrefresher, hrun, rfl, ⟨⟨_, rfl⟩, rfl⟩, rfl, rfl,
      haccess, hrefresh⟩

end Exchange

theorem trigger_at_service_of_one_job :
    let _ : HostNames := .plain
    let p : Principal := ⟨"ann", .admin, none, none, none⟩
    let service : Service := ⟨⟨"secret", 1, 168⟩, 100, true, fun _ => none, .plain⟩
    let arrival (_ : Nat) : Arrival := ⟨.epoch, "id", 0⟩
    let renewal := Token.sign "secret" ⟨p, .refresh, 0, 604800⟩
    let store : JobStore := ⟨[{ (default : Job) with id := 1, isActive := true }]⟩
    Renewable service arrival p "stale" renewal ∧
      ∃ client refresher, ∃ s' : BackoffClient × TokenRefresher × Loopback, ∃ report,
        BackoffClient.new "http://crm" {} (some "stale") = .ok client ∧
        Trigger.run (around service arrival fun _ => 0) client (refresher, ⟨store, []⟩) =
          (.ok report, s') ∧ s'.2.2.received.length = 3 := by
  intro _ p service arrival renewal store
  let base : Url := ⟨"http", "", "", some (.domain "crm"), none, .segments [""], none, none⟩
  have hbase : Url.parse "http://crm" = .ok base := by decide +kernel
  have hcarries := Token.carries_sign "secret" (c := ⟨p, .refresh, 0, 604800⟩)
    ⟨by decide, by decide⟩
  have htext : (Claims.mk p .refresh 0 604800).toJson.text.utf8ByteSize ≤ 200 := by decide +kernel
  have hsoon : Token.EndsInRange .epoch 1 :=
    ⟨⟨0, 3600, 0, by decide, by decide, by decide, by decide⟩, by decide, by decide⟩
  have hlater : Token.EndsInRange .epoch 168 :=
    ⟨⟨7, 0, 0, by decide, by decide, by decide, by decide⟩, by decide, by decide⟩
  have h : Renewable service arrival p "stale" renewal := by
    refine ⟨Text.forall_mem_of_all (by decide), ⟨_, rfl⟩,
      ⟨_, hcarries.accepted (by decide) (by decide) _ (by simp), rfl⟩, ?_, by decide,
      ⟨hsoon, hlater⟩, by decide⟩
    rw [Token.length_sign]
    unfold maxBody
    omega
  obtain ⟨client, refresher, client', refresher', l, result, pair, hclient, -, hrun, hreceived,
    hadmin, -⟩ := trigger_at_service (fun _ => 0) {} hbase ⟨.inl rfl, rfl, rfl⟩
      (by decide : store.DistinctIds) (by decide) (by decide) (by decide) h
  obtain ⟨polled, -, ⟨report, -, rfl⟩ | ⟨-, -, hfull⟩⟩ := hadmin
  · exact ⟨h, client, refresher, (client', refresher', l), _, hclient, hrun, by rw [hreceived]; rfl⟩
  · exact absurd hfull (by decide)

/-- A refresh token that is too long for a body ends the trigger, although it holds: its user id
alone has the size of a body. -/
theorem oversized_refresh_token_ends_trigger :
    let _ : HostNames := .plain
    let p : Principal := ⟨String.ofList (List.replicate maxBody 'a'), .admin, none, none, none⟩
    let service : Service := ⟨⟨"secret", 1, 168⟩, 100, true, fun _ => none, .plain⟩
    let arrival (_ : Nat) : Arrival := ⟨.epoch, "id", 0⟩
    let renewal := Token.sign "secret" ⟨p, .refresh, 0, 604800⟩
    (∀ c ∈ "stale".toList, IsGraphic c) ∧
      (∃ f, Token.validate 0 "secret" (some .access) "stale" = .error f) ∧
      Token.HoldsUntil "secret" renewal .refresh p 604800 ∧
      ∃ client refresher, ∃ s' : BackoffClient × TokenRefresher × Loopback,
        BackoffClient.new "http://crm" {} (some "stale") = .ok client ∧
        TokenRefresher.new client.baseUrl renewal = .ok refresher ∧
        Trigger.run (around service arrival fun _ => 0) client (refresher, ⟨.empty, []⟩) =
          (.error (.refresh "refresh endpoint answered 400 Bad Request"), s') ∧
        s'.2.2.received.length = 2 := by
  intro _ p service arrival renewal
  let base : Url := ⟨"http", "", "", some (.domain "crm"), none, .segments [""], none, none⟩
  have hbase : Url.parse "http://crm" = .ok base := by decide +kernel
  have hweb : base.IsWeb := ⟨.inl rfl, rfl, rfl⟩
  have hgraphic : ∀ c ∈ "stale".toList, IsGraphic c := Text.forall_mem_of_all (by decide)
  have hrefused : ∃ f, Token.validate 0 "secret" (some .access) "stale" = .error f := ⟨_, rfl⟩
  have hrange : Claims.InRange ⟨p, .refresh, 0, 604800⟩ := ⟨by decide, by decide⟩
  have hholds : Token.HoldsUntil "secret" renewal .refresh p 604800 := fun now hnow =>
    ⟨_, (Token.carries_sign "secret" hrange).accepted (by decide)
      (Int.sub_le_self now (by decide) |>.trans hnow) _ (by simp), rfl⟩
  have hsize : maxBody < (tokenBody renewal).text.utf8ByteSize := by
    have hplain : ∀ c ∈ renewal.toList, IsPlain c := fun c hc =>
      isPlain_of_isTokenChar (Token.isTokenChar_of_mem_sign hc)
    have hlength : maxBody ≤ renewal.toList.length := by
      have hid := Token.length_userId_le_sign "secret" ⟨p, .refresh, 0, 604800⟩
      rw [String.toList_ofList, List.length_replicate] at hid
      exact hid
    rw [utf8ByteSize_tokenBody hplain]
    omega
  obtain ⟨f, hfault⟩ := hrefused
  obtain ⟨b, hrun⟩ := run_of_oversized service arrival hweb rfl hgraphic hfault hsize {} (fun _ => 0)
    .empty
  exact ⟨hgraphic, ⟨f, hfault⟩, hholds, _, _, _, BackoffClient.new_of_parse hbase _ _,
    TokenRefresher.new_of_http hweb.scheme rfl _, hrun, rfl⟩

end Cadence
