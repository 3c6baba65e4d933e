import Cadence.Client.Fetch
import Cadence.Proofs.Http.Access
import Cadence.Proofs.Http.RefreshRequest

/-!
# New tokens for old ones

A refresh token is exchanged for a new pair of tokens, and its successor for the next one. Along the
whole chain the tokens are those of one principal, each for its own purpose.
-/

namespace Cadence.Http

variable {s : Service} {a : Arrival} {r : Request}

/-! ## The answer -/

open Json in
theorem tokensOf?_bearer {response : Response} {pair : Token.Pair} {hours : Int}
    (h : response.body = (Token.Response.bearer pair hours).toJson.text) :
    TokenRefresher.tokensOf? response = some (pair.access, pair.refresh) := by
  have hsuits : ∀ m ∈ [("access_token", str pair.access), ("refresh_token", str pair.refresh),
      ("token_type", str "Bearer"), ("expires_in", int (hours * 3600))],
      Suits [.text "access_token", .text "refresh_token"] m := by
    simp only [List.forall_mem_cons, List.not_mem_nil, false_implies, implies_true, and_true]
    exact ⟨FieldReader.reads_text _ _, FieldReader.reads_text _ _, skips_str _, skips_int _⟩
  obtain ⟨members, hread, hlookup⟩ := readRecord_text hsuits (by simp)
  have haccess : members.lookup "access_token" = some (.str pair.access) := hlookup _
  have hrefresh : members.lookup "refresh_token" = some (.str pair.refresh) := hlookup _
  have hcomplete : complete [.text "access_token", .text "refresh_token"] members = .ok members := by
    unfold complete
    simp [FieldReader.text, FieldSpec.required, haccess, hrefresh]
  unfold TokenRefresher.tokensOf?
  rw [h]
  unfold Token.Response.bearer Token.Response.toJson
  rw [hread, hcomplete]
  simp only [required?_of_lookup haccess, required?_of_lookup hrefresh]
  rfl

/-! ## The endpoint -/

theorem refreshed_eq_ok_iff {p : Principal} :
    refreshed s a r = .ok p ↔
      ∃ token claims, refreshTokenOf r = .ok token ∧
        Token.validate a.now.unixSeconds s.tokens.secret (some .refresh) token = .ok claims ∧
        claims.principal = p := by
  unfold refreshed
  cases htoken : refreshTokenOf r with
  | error e => simp [bind, Except.bind]
  | ok token =>
    cases hclaims : Token.validate a.now.unixSeconds s.tokens.secret (some .refresh) token with
    | error f => simp [bind, Except.bind, Except.mapError, hclaims]
    | ok claims => simp [bind, Except.bind, Except.mapError, pure, Except.pure, hclaims]

theorem refresh_of_refused {e : ServiceError} (h : refreshed s a r = .error e) :
    refresh s a r = .done (.error e) := by
  unfold refresh
  rw [h]
  rfl

theorem refresh_of_ok {p : Principal} (h : refreshed s a r = .ok p) :
    (refresh s a r).answer? =
      (Token.issuePair? p s.tokens.secret s.tokens.accessExpiration s.tokens.refreshExpiration
        a.now).map fun pair =>
          .ok (.json 200 (Token.Response.bearer pair s.tokens.accessExpiration).toJson) := by
  unfold refresh
  rw [h]
  change ((StoreScript.ofOption _).bind _).answer? = _
  cases Token.issuePair? p s.tokens.secret s.tokens.accessExpiration s.tokens.refreshExpiration
    a.now <;> rfl

theorem refresh_answers_ok_iff {response : Response} :
    (refresh s a r).answer? = some (.ok response) ↔
      ∃ p pair, refreshed s a r = .ok p ∧
        Token.issuePair? p s.tokens.secret s.tokens.accessExpiration s.tokens.refreshExpiration
          a.now = some pair ∧
        response = .json 200 (Token.Response.bearer pair s.tokens.accessExpiration).toJson := by
  constructor
  · intro h
    cases hp : refreshed s a r with
    | error e =>
      rw [refresh_of_refused hp] at h
      cases h
    | ok p =>
      rw [refresh_of_ok hp] at h
      obtain ⟨pair, hpair, hresponse⟩ := Option.map_eq_some_iff.mp h
      cases hresponse
      exact ⟨p, pair, rfl, hpair, rfl⟩
  · rintro ⟨p, pair, hp, hpair, rfl⟩
    rw [refresh_of_ok hp, hpair]
    rfl

theorem posts_refresh (hmethod : r.method = "POST") (hpath : r.path = TokenRefresher.path) :
    Posts s r (.toAll .refresh) where
  method := hmethod
  place := by rw [hpath]; rfl
  takes := rfl

theorem respond_refresh (hposts : Posts s r (.toAll .refresh)) (moments : Nat → Moment) (n : Nat)
    (store : JobStore) :
    (respond s a r).run moments n store =
      ((refresh s a r).answer?.map (finished s a r), store) := by
  rw [respond_run hposts.place (by rw [hposts.method]; decide)]
  unfold replyOf
  rw [hposts.accepts]
  simp only [if_true]
  change (((refresh s a r).run moments n store).1.map _, ((refresh s a r).run moments n store).2) = _
  rw [(hasEnded_refresh s a r).run_eq]

/-! ## Renewals -/

/-- A posted refresh token is answered with a pair of tokens. -/
structure Renews (s : Service) (a : Arrival) (r : Request) (token : String) (pair : Token.Pair) :
    Prop where
  method : r.method = "POST"
  path : r.path = TokenRefresher.path
  presents : refreshTokenOf r = .ok token
  /-- by a service with some jobs -/
  answered : ∃ moments n store response,
    ((respond s a r).run moments n store).1.bind s.coding.read? = some response ∧
      response.status = 200 ∧ TokenRefresher.tokensOf? response = some (pair.access, pair.refresh)

theorem renews_of_valid {token : String} {claims : Claims} {pair : Token.Pair}
    (hmethod : r.method = "POST") (hpath : r.path = TokenRefresher.path)
    (hpresents : refreshTokenOf r = .ok token)
    (hvalid : Token.validate a.now.unixSeconds s.tokens.secret (some .refresh) token = .ok claims)
    (hpair : Token.issuePair? claims.principal s.tokens.secret s.tokens.accessExpiration
      s.tokens.refreshExpiration a.now = some pair) : Renews s a r token pair := by
  have hposts := posts_refresh (s := s) hmethod hpath
  obtain ⟨response, hread, hstatus, hbody⟩ := hposts.read_json a
    (Token.Response.bearer pair s.tokens.accessExpiration).toJson
  refine ⟨hmethod, hpath, hpresents, fun _ => ⟨.epoch, fun _ => none⟩, 0, .empty, response, ?_,
    hstatus, tokensOf?_bearer hbody⟩
  rw [respond_refresh hposts,
    refresh_answers_ok_iff.mpr
      ⟨_, pair, refreshed_eq_ok_iff.mpr ⟨token, claims, hpresents, hvalid, rfl⟩, hpair, rfl⟩]
  exact hread

theorem Renews.issued {token : String} {pair : Token.Pair} (h : Renews s a r token pair) :
    ∃ claims, Token.validate a.now.unixSeconds s.tokens.secret (some .refresh) token = .ok claims ∧
      Token.issuePair? claims.principal s.tokens.secret s.tokens.accessExpiration
        s.tokens.refreshExpiration a.now = some pair := by
  obtain ⟨hmethod, hpath, hpresents, moments, n, store, response, hanswer, hstatus, htokens⟩ := h
  have hposts := posts_refresh (s := s) hmethod hpath
  rw [respond_refresh hposts] at hanswer
  rcases hreply : (refresh s a r).answer? with _ | fault | reply
  · rw [hreply] at hanswer
    cases hanswer
  · obtain ⟨told, hread, hfault⟩ := hposts.read_error a fault
    rw [hreply] at hanswer
    obtain rfl : told = response := Option.some.inj (hread.symm.trans hanswer)
    have hle := le_status fault
    omega
  · obtain ⟨p, pair', hp, hpair, rfl⟩ := refresh_answers_ok_iff.mp hreply
    obtain ⟨token', claims, hpresents', hvalid, rfl⟩ := refreshed_eq_ok_iff.mp hp
    rw [hpresents, Except.ok.injEq] at hpresents'
    subst hpresents'
    obtain ⟨told, hread, -, hbody⟩ := hposts.read_json a
      (Token.Response.bearer pair' s.tokens.accessExpiration).toJson
    rw [hreply] at hanswer
    obtain rfl : told = response := Option.some.inj (hread.symm.trans hanswer)
    rw [tokensOf?_bearer hbody] at htokens
    obtain ⟨rfl⟩ : pair' = pair := by
      cases pair'
      cases pair
      cases htokens
      rfl
    exact ⟨claims, hvalid, hpair⟩

/-- A chain of renewals, each of the refresh token that the one before has brought. -/
inductive Renewals (s : Service) : String → List (Arrival × Request × Token.Pair) → Prop
  | nil {token : String} : Renewals s token []
  | cons {a : Arrival} {r : Request} {token : String} {pair : Token.Pair}
      {rest : List (Arrival × Request × Token.Pair)} (first : Renews s a r token pair)
      (others : Renewals s pair.refresh rest) : Renewals s token ((a, r, pair) :: rest)

/-- The tokens of a pair that is issued on an arrival carry a principal, each for its own purpose
and for that alone. -/
structure Bears (s : Service) (p : Principal) (a : Arrival) (pair : Token.Pair) : Prop where
  access : ∃ expiry, a.now.addSeconds? (s.tokens.accessExpiration * 3600) = some expiry ∧
    Token.Carries s.tokens.secret pair.access p .access a.now.unixSeconds expiry.unixSeconds
  refresh : ∃ expiry, a.now.addSeconds? (s.tokens.refreshExpiration * 3600) = some expiry ∧
    Token.Carries s.tokens.secret pair.refresh p .refresh a.now.unixSeconds expiry.unixSeconds
  /-- the access token is not renewed -/
  access_not_renewed : ∀ {a' r'}, refreshTokenOf r' = .ok pair.access →
    ∃ message, Http.refresh s a' r' = .done (.error (.unauthorized message))
  /-- who brings the refresh token for a call is nobody -/
  refresh_no_caller : ∀ {a' r'},
    r'.headers.lookup "authorization" = some ("Bearer " ++ pair.refresh) →
      ∃ message, authenticate s a' r' = .error (.unauthorized message)

theorem Bears.of_issuePair? {p : Principal} {pair : Token.Pair}
    (h : Token.issuePair? p s.tokens.secret s.tokens.accessExpiration s.tokens.refreshExpiration
      a.now = some pair) : Bears s p a pair := by
  obtain ⟨haccess, hrefresh⟩ := Token.issuePair?_eq_some.mp h
  obtain ⟨accessExpiry, haccessExpiry, -, hcarriesAccess⟩ := Token.carries_of_issue? haccess
  obtain ⟨refreshExpiry, hrefreshExpiry, hsigned, hcarriesRefresh⟩ :=
    Token.carries_of_issue? hrefresh
  refine ⟨⟨_, haccessExpiry, hcarriesAccess⟩, ⟨_, hrefreshExpiry, hcarriesRefresh⟩, ?_, ?_⟩
  · intro a' r' hpresents
    obtain ⟨f, hf⟩ : ∃ f, Token.validate a'.now.unixSeconds s.tokens.secret (some .refresh)
        pair.access = .error f := hcarriesAccess.refused (by decide)
    refine ⟨f.message, ?_⟩
    have hrefused : refreshed s a' r' = .error (.unauthorized f.message) := by
      unfold refreshed
      rw [hpresents]
      simp only [bind, Except.bind, hf, Except.mapError, Token.Fault.toError]
    exact refresh_of_refused hrefused
  · intro a' r' hheader
    obtain ⟨f, hf⟩ : ∃ f, Token.validate a'.now.unixSeconds s.tokens.secret (some .access)
        pair.refresh = .error f := hcarriesRefresh.refused (by decide)
    refine ⟨f.message, ?_⟩
    have hvisible : ∀ c ∈ pair.refresh.toList, isVisible c = true := by
      rw [hsigned]
      exact fun c hc => isVisible_of_isTokenChar (Token.isTokenChar_of_mem_sign hc)
    rw [authenticate_bearer hvisible hheader, hf]
    rfl

/-- All pairs of a chain carry the principal of the token that it begins with. -/
theorem Renewals.bears {p : Principal} {token : String}
    {steps : List (Arrival × Request × Token.Pair)} (h : Renewals s token steps)
    (htoken : ∀ now claims, Token.validate now s.tokens.secret (some .refresh) token = .ok claims →
      claims.principal = p) : ∀ step ∈ steps, Bears s p step.1 step.2.2 := by
  induction h with
  | nil => exact fun _ hstep => absurd hstep List.not_mem_nil
  | cons first others ih =>
    obtain ⟨claims, hvalid, hpair⟩ := first.issued
    rw [htoken _ claims hvalid] at hpair
    have hbears := Bears.of_issuePair? hpair
    rw [List.forall_mem_cons]
    refine ⟨hbears, ih fun now claims hclaims => ?_⟩
    obtain ⟨expiry, -, hcarries⟩ := hbears.refresh
    rw [hcarries.claims hclaims]

/-- A token is read as what it was issued for, for its own purpose alone; a refresh token that holds
is exchanged for a new pair; and along a chain of exchanges of any length the principal stays the
same. -/
theorem tokens_keep_principal :
    (∀ (p : Principal) (kind other : TokenKind) (secret : String) (hours : Int)
      (now expiry : Instant), 0 ≤ hours → now.addSeconds? (hours * 3600) = some expiry →
      0 ≤ expiry.unixSeconds → other ≠ kind →
      ∃ token claims, Token.issue? p kind secret hours now = some token ∧
        claims.principal = p ∧ claims.kind = kind ∧ claims.issuedAt = now.unixSeconds ∧
        claims.expiresAt = claims.issuedAt + 3600 * hours ∧
        ∀ later : Int, later - Token.leeway ≤ claims.expiresAt →
          Token.validate later secret none token = .ok claims ∧
          Token.validate later secret (some kind) token = .ok claims ∧
          (Token.validate later secret (some other) token).mapError Token.Fault.toError =
            .error (.unauthorized (Token.Fault.kind other kind).message)) ∧
    (∀ (s : Service) (a : Arrival) (r : Request) (token : String) (claims : Claims)
      (accessExpiry refreshExpiry : Instant), r.method = "POST" → r.path = TokenRefresher.path →
      refreshTokenOf r = .ok token →
      Token.validate a.now.unixSeconds s.tokens.secret (some .refresh) token = .ok claims →
      a.now.addSeconds? (s.tokens.accessExpiration * 3600) = some accessExpiry →
      a.now.addSeconds? (s.tokens.refreshExpiration * 3600) = some refreshExpiry →
      ∃ pair, Renews s a r token pair) ∧
    ∀ (s : Service) (now : Int) (token : String) (claims : Claims)
      (steps : List (Arrival × Request × Token.Pair)),
      Token.validate now s.tokens.secret (some .refresh) token = .ok claims →
      Renewals s token steps → ∀ step ∈ steps, Bears s claims.principal step.1 step.2.2 := by
  refine ⟨?_, ?_, ?_⟩
  · intro p kind other secret hours now expiry hhours hexpiry hnonneg hother
    have hends := Instant.unixSeconds_of_addSeconds? (by omega) hexpiry
    have hrange : Claims.InRange ⟨p, kind, now.unixSeconds, expiry.unixSeconds⟩ :=
      ⟨now.unixSeconds_inRange, expiry.unixSeconds_inRange⟩
    have hcarries := Token.carries_sign secret hrange
    refine ⟨_, ⟨p, kind, now.unixSeconds, expiry.unixSeconds⟩,
      Token.issue?_of_expiry p kind secret hexpiry, rfl, rfl, rfl, ?_, fun later hlater => ?_⟩
    · change expiry.unixSeconds = now.unixSeconds + 3600 * hours
      omega
    · refine ⟨hcarries.accepted hnonneg hlater _ (by simp),
        hcarries.accepted hnonneg hlater _ (by simp), ?_⟩
      rw [Token.validate_sign later secret _ hrange,
        Token.judge_other hnonneg hlater (Ne.symm hother)]
      rfl
  · intro s a r token claims accessExpiry refreshExpiry hmethod hpath hpresents hvalid haccess
      hrefresh
    exact ⟨_, renews_of_valid hmethod hpath hpresents hvalid
      (Token.issuePair?_of_expiry claims.principal s.tokens.secret haccess hrefresh)⟩
  · intro s now token claims steps hvalid hsteps
    -- The refresh token presented first settles the principal of all that follow.
    exact hsteps.bears fun now' claims' hclaims' => by rw [Token.claims_unique hvalid hclaims']

theorem tokens_keep_principal_of_one_renewal :
    let p : Principal := ⟨"Zoë 🦀", .admin, some "north\n", none, some .manager⟩
    let s : Service := ⟨⟨"secret", 1, 168⟩, 100, true, fun _ => none, .plain⟩
    let a : Arrival := ⟨.epoch, "id", 0⟩
    ∃ token claims pair, ∃ r : Request,
      Token.issue? p .refresh "secret" 168 .epoch = some token ∧ claims.principal = p ∧
        Token.validate 0 "secret" (some .refresh) token = .ok claims ∧
        Renews s a r token pair ∧ Bears s p a pair := by
  intro p s a
  have hlater : Instant.epoch.addSeconds? (168 * 3600) =
    some ⟨7, 0, 0, by decide, by decide, by decide, by decide⟩ := by decide
  have hsoon : Instant.epoch.addSeconds? (1 * 3600) =
    some ⟨0, 3600, 0, by decide, by decide, by decide, by decide⟩ := by decide
  obtain ⟨hissue, hrenew, hchain⟩ := tokens_keep_principal
  obtain ⟨token, claims, htoken, hp, -, hissued, hexpires, hholds⟩ :=
    hissue p .refresh .access "secret" 168 .epoch _ (by decide) hlater (by decide) (by decide)
  have hvalid : Token.validate 0 "secret" (some .refresh) token = .ok claims := by
    refine (hholds 0 ?_).2.1
    rw [hexpires, hissued]
    decide
  have hsigned : token = Token.sign "secret" ⟨p, .refresh, 0, 604800⟩ := by
    rw [Token.issue?_of_expiry p .refresh "secret" hlater] at htoken
    exact (Option.some.inj htoken).symm
  let r : Request :=
    ⟨"POST", "/api/auth/refresh", [("content-type", jsonType)], (tokenBody token).text⟩
  have hplain : ("/api/auth/refresh".toList.all fun c => c ≠ '?' && c ≠ '#') = true := by decide
  have htext : (Claims.mk p .refresh 0 604800).toJson.text.utf8ByteSize ≤ 200 := by decide +kernel
  have hpresents : refreshTokenOf r = .ok token := by
    refine refreshTokenOf_tokenBody ⟨rfl, rfl⟩ ?_ ?_
    · rw [hsigned, utf8ByteSize_tokenBody fun c hc =>
        isPlain_of_isTokenChar (Token.isTokenChar_of_mem_sign hc), Token.length_sign]
      unfold maxBody
      omega
    · rintro rfl
      have hlength := congrArg (fun t => t.toList.length) hsigned
      simp only [Token.length_sign] at hlength
      simp at hlength
  obtain ⟨pair, hrenews⟩ :=
    hrenew s a r token claims _ _ rfl (path_of_plain hplain) hpresents hvalid hsoon
    hlater
  have hbears := hchain s 0 token claims [(a, r, pair)] hvalid (.cons hrenews .nil) _
    List.mem_cons_self
  rw [hp] at hbears
  exact ⟨token, claims, pair, r, htoken, hp, hvalid, hrenews, hbears⟩

end Cadence.Http
