import Cadence.Client.Fetch
import Cadence.Proofs.Http.Access
import Cadence.Proofs.Http.RefreshRequest
import Cadence.Proofs.Url.Absolute

/-!
# Requests of a client

A request whose token is refused goes on with new tokens and a second attempt. The messages to a
service are the same for all bases of the web, but for what they bring as authorization.
-/

namespace Cadence

open Http

/-! ## A request that is sent again -/

namespace BackoffClient

variable {σ : Type} {w : Surroundings σ} {c : BackoffClient} {method path : String} {url : Url}
  {body : Option Json} {s s' : σ} {m : Request} {response : Response}

theorem attempt_of_send {isRetry : Bool} {answer? : Option Response}
    (hm : message c.accessToken method url body isRetry = m) (hadmits : w.admits url m = true)
    (hsend : w.send url m s = (answer?, s')) :
    ∃ b, attempt w c method url body isRetry s = (answer?, { c with backoff := b }, s') := by
  unfold attempt
  simp only [hm, hadmits, hsend, if_true]
  cases answer? <;> exact ⟨_, rfl⟩

theorem request_of_refused [HostNames] (hjoin : c.baseUrl.join path = .ok url)
    (hcool : c.backoff.cooling? url.path.text (w.now s) = none)
    (hm : message c.accessToken method url body false = m) (hadmits : w.admits url m = true)
    (hsend : w.send url m s = (some response, s')) (hstatus : response.status = unauthorized) :
    ∃ b, request w c method path body s =
      retry w { c with backoff := b } method url body response s' := by
  obtain ⟨b, hattempt⟩ := attempt_of_send hm hadmits hsend
  refine ⟨b, ?_⟩
  unfold request urlOr
  rw [hjoin]
  simp only [Except.mapError, hcool, hattempt, hstatus, if_true]

variable {refresh : σ → Except FetchError String × σ} {token : String} {answer? : Option Response}
  {s₁ s₂ : σ}

theorem retry_of_error (hrefresh : w.refresh? = some refresh) {e : FetchError}
    (herror : refresh s = (.error e, s₁)) :
    retry w c method url body response s = (.error e, c, s₁) := by
  unfold retry
  rw [hrefresh]
  simp only [herror]

theorem retry_of_token (hrefresh : w.refresh? = some refresh)
    (htoken : refresh s = (.ok token, s₁))
    (hm : message (some token) method url body true = m) (hadmits : w.admits url m = true)
    (hsend : w.send url m s₁ = (answer?, s₂)) (refused : Response) :
    ∃ b, retry w c method url body refused s =
      (answer?.elim (.error .transport) .ok, ⟨c.baseUrl, b, some token⟩, s₂) := by
  obtain ⟨b, hattempt⟩ :=
    attempt_of_send (c := { c with accessToken := some token }) hm hadmits hsend
  refine ⟨b, ?_⟩
  unfold retry
  rw [hrefresh]
  simp only [htoken, hattempt]
  cases answer? <;> rfl

end BackoffClient

/-! ## The messages -/

/-- The trigger, as it is sent with a token to a base without credentials. -/
def triggerMessage (token : String) (isRetry : Bool) : Request where
  method := "POST"
  target := Trigger.runPath
  headers := ("authorization", "Bearer " ++ token) ::
    ((if isRetry then [("x-auth-retry", "1")] else []) ++
      ("content-type", jsonType) :: BackoffClient.clientHeaders)
  body := (Json.obj []).text

/-- The request for new tokens, as it is sent to a base. -/
def renewalMessage (base : Url) (token : String) : Request where
  method := "POST"
  target := TokenRefresher.path
  headers := ((BackoffClient.basic? base).map ("authorization", ·)).toList ++
    ("content-type", jsonType) :: BackoffClient.clientHeaders
  body := (tokenBody token).text

/-- The URL at the place of a base. -/
def Url.at (base : Url) (names : List String) : Url :=
  { base with path := .segments names, query := none, fragment := none }

/-- The base speaks HTTP. It names no user, who would be sent along with every request. -/
structure Url.IsWeb (base : Url) : Prop where
  scheme : base.scheme = "http" ∨ base.scheme = "https"
  anonymous : base.username = "" ∧ base.password = ""

theorem Url.isSpecial_of_http {base : Url} (h : base.scheme = "http" ∨ base.scheme = "https") :
    isSpecial base.scheme = true ∧ base.scheme ≠ "file" := by
  rcases h with h | h <;> rw [h] <;> decide

theorem Url.IsWeb.isSpecial {base : Url} (h : base.IsWeb) :
    isSpecial base.scheme = true ∧ base.scheme ≠ "file" := isSpecial_of_http h.scheme

theorem join_runPath [HostNames] {base : Url} {names : List String} (hweb : base.IsWeb)
    (hpath : base.path = .segments names) :
    base.join Trigger.runPath = .ok (base.at ["api", "cron", "run"]) :=
  have hclean : Url.cleaned Trigger.runPath = '/' :: "api/cron/run".toList := by decide
  Url.join_absolute hweb.isSpecial.1 hweb.isSpecial.2 hpath hclean (by decide) (by decide)

theorem join_refreshPath [HostNames] {base : Url} {names : List String}
    (hscheme : base.scheme = "http" ∨ base.scheme = "https") (hpath : base.path = .segments names) :
    base.join TokenRefresher.path = .ok (base.at ["api", "auth", "refresh"]) :=
  have hclean : Url.cleaned TokenRefresher.path = '/' :: "api/auth/refresh".toList := by decide
  have hspecial := Url.isSpecial_of_http hscheme
  Url.join_absolute hspecial.1 hspecial.2 hpath hclean (by decide) (by decide)

theorem Url.IsWeb.basic?_eq_none {base : Url} (h : base.IsWeb) :
    BackoffClient.basic? base = none := by
  unfold BackoffClient.basic?
  rw [h.anonymous.1, h.anonymous.2]
  rfl

theorem message_trigger {base : Url} (hweb : base.IsWeb) (token : String) (isRetry : Bool) :
    BackoffClient.message (some token) "POST" (base.at ["api", "cron", "run"]) (some (.obj []))
      isRetry = triggerMessage token isRetry := by
  have hbasic : BackoffClient.basic? (base.at ["api", "cron", "run"]) = none := hweb.basic?_eq_none
  unfold BackoffClient.message
  rw [hbasic]
  cases isRetry <;> rfl

theorem message_renewal (base : Url) (token : String) :
    (⟨base.at ["api", "auth", "refresh"], token⟩ : TokenRefresher).message =
      renewalMessage base token := by
  have hbasic : BackoffClient.basic? (base.at ["api", "auth", "refresh"]) =
      BackoffClient.basic? base := rfl
  unfold TokenRefresher.message BackoffClient.message renewalMessage
  rw [hbasic]
  cases BackoffClient.basic? base <;> rfl

theorem Url.IsWeb.renewalMessage_headers {base : Url} (h : base.IsWeb) (token : String) :
    (renewalMessage base token).headers =
      ("content-type", jsonType) :: BackoffClient.clientHeaders := by
  unfold renewalMessage
  rw [h.basic?_eq_none]
  rfl

/-! ## What a client begins with -/

theorem BackoffClient.new_of_parse [HostNames] {baseUrl : String} {base : Url}
    (hbase : Url.parse baseUrl = .ok base) (config : BackoffSettings) (access : Option String) :
    BackoffClient.new baseUrl config access = .ok ⟨base, .new config, access⟩ := by
  unfold BackoffClient.new BackoffClient.urlOr
  rw [hbase]
  rfl

theorem TokenRefresher.new_of_http [HostNames] {base : Url} {names : List String}
    (hscheme : base.scheme = "http" ∨ base.scheme = "https") (hpath : base.path = .segments names)
    (renewal : String) :
    TokenRefresher.new base renewal = .ok ⟨base.at ["api", "auth", "refresh"], renewal⟩ := by
  unfold TokenRefresher.new BackoffClient.urlOr
  rw [join_refreshPath hscheme hpath]
  rfl

end Cadence
