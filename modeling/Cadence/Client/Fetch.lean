import Cadence.Client.Backoff
import Cadence.Http.Message
import Cadence.Job.Poll
import Cadence.Json.Read
import Cadence.Json.Record
import Cadence.Time.Stamp
import Cadence.Token.Base64
import Cadence.Url.Read

/-!
# The client

Requests to a service that may be rate limited and may want a fresh token. A path that was rate
limited is not asked again until it has cooled down. An answer that refuses the token leads to one
refresh and one more try, and to no third.

What lies around the client is a state that its calls change: the network, and the place where new
tokens come from.
-/

namespace Cadence

inductive FetchError
  /-- the path was rate limited, and nothing was sent -/
  | cooling (path : String) (retryAt : Instant)
  /-- there was no answer, or none that could be read -/
  | transport
  | invalidUrl (reason : String)
  | refresh (reason : String)
  | status (code : Nat) (body : String)
  deriving DecidableEq, Repr

namespace FetchError

def message : FetchError → String
  | cooling path retryAt =>
    s!"Request to {path} suppressed while cooling down until {Stamp.writeSpaced retryAt}"
  | transport => "HTTP transport error"
  | invalidUrl reason => "Invalid URL: " ++ reason
  | refresh reason => "Token refresh failed: " ++ reason
  | status code body => s!"Unexpected response status {code}: {body}"

def retryAt? : FetchError → Option Instant
  | cooling _ t => some t
  | _ => none

def isCooling (e : FetchError) : Bool := e.retryAt?.isSome

end FetchError

/-- What lies around a client. -/
structure Surroundings (σ : Type) where
  now : σ → Instant
  /-- a number up to a bound, different each time -/
  jitter : Nat → σ → Nat
  /-- a request that is made for a URL can be sent -/
  admits : Url → Http.Request → Bool
  /-- sends a request, follows where it is sent on to, and undoes the coding of the answer; there
  may be no answer -/
  send : Url → Http.Request → σ → Option Http.Response × σ
  /-- fetches a new access token, where that is possible -/
  refresh? : Option (σ → Except FetchError String × σ)

/-- A client of one service: its base, the paths that cool down, and the access token it bears. -/
structure BackoffClient where
  baseUrl : Url
  backoff : BackoffState
  accessToken : Option String

namespace BackoffClient

/-- The URL that a text spells, or the error with the text. -/
def urlOr (read : String → Except Url.Fault Url) (s : String) : Except FetchError Url :=
  (read s).mapError fun f => .invalidUrl s!"{s}: {f.message}"

def new [HostNames] (baseUrl : String) (config : BackoffSettings) (accessToken : Option String) :
    Except FetchError BackoffClient := do
  return ⟨← urlOr Url.parse baseUrl, .new config, accessToken⟩

def userAgent : String := "crm-cron/" ++ serviceVersion

/-! ## One attempt -/

/-- The text that percent encodings stand for, if it is one. -/
def plainText? (s : String) : Option String := String.fromUTF8? ⟨(Url.decode s.toList).toArray⟩

/-- Base 64 with its own two marks, filled up to groups of four. -/
def basicCode (s : String) : String :=
  let code := (Base64.encode s.toUTF8.toList).map fun c =>
    if c = '-' then '+' else if c = '_' then '/' else c
  String.ofList (code ++ List.replicate ((4 - code.length % 4) % 4) '=')

/-- The user and the password of a URL, as a header has them. -/
def basic? (url : Url) : Option String := do
  let user ← plainText? url.username
  let password? := if url.password.isEmpty then none else plainText? url.password
  if user.isEmpty && password?.isNone then none
  else some ("Basic " ++ basicCode (user ++ ":" ++ password?.getD ""))

/-- What every request tells of the client. -/
def clientHeaders : List Http.Header :=
  [("accept", "*/*"), ("accept-encoding", "gzip"), ("user-agent", userAgent)]

/-- The request to a URL with a token. Credentials in the URL come before the token. -/
def message (token : Option String) (method : String) (url : Url) (body : Option Json)
    (isRetry : Bool) : Http.Request :=
  let basic := (basic? url).map ("authorization", ·)
  let bearer := token.map fun t => ("authorization", "Bearer " ++ t)
  let retry := if isRetry then [("x-auth-retry", "1")] else []
  let type := body.map fun _ => ("content-type", Http.jsonType)
  { method
    target := url.target
    headers := basic.toList ++ bearer.toList ++ retry ++ type.toList ++ clientHeaders
    body := (body.map fun v => v.sorted.text).getD "" }

def tooManyRequests : Nat := 429

def unauthorized : Nat := 401

/-- The books after an answer of some status. -/
def track {σ : Type} (w : Surroundings σ) (s : σ) (key : String) (status : Nat)
    (b : BackoffState) : BackoffState :=
  if status = tooManyRequests then
    (b.recordLimited key (w.now s) (w.jitter b.config.jitter s)).1
  else b.recordSuccess key

/-- Sends one request and keeps the books of its answer. -/
def attempt {σ : Type} (w : Surroundings σ) (c : BackoffClient) (method : String) (url : Url)
    (body : Option Json) (isRetry : Bool) (s : σ) : Option Http.Response × BackoffClient × σ :=
  let request := message c.accessToken method url body isRetry
  if w.admits url request then
    match w.send url request s with
    | (none, s) => (none, c, s)
    | (some response, s) =>
      let b := track w s url.path.text response.status c.backoff
      (some response, { c with backoff := b }, s)
  else (none, c, s)

/-! ## A request -/

/-- The second attempt after a refused token: with a new one, if there is one to be had. -/
def retry {σ : Type} (w : Surroundings σ) (c : BackoffClient) (method : String) (url : Url)
    (body : Option Json) (refused : Http.Response) (s : σ) :
    Except FetchError Http.Response × BackoffClient × σ :=
  match w.refresh? with
  | none => (.ok refused, c, s)
  | some refresh =>
    match refresh s with
    | (.error e, s) => (.error e, c, s)
    | (.ok token, s) =>
      match attempt w { c with accessToken := some token } method url body true s with
      | (some response, c, s) => (.ok response, c, s)
      | (none, c, s) => (.error .transport, c, s)

/-- A request to a path, relative to the base. -/
def request [HostNames] {σ : Type} (w : Surroundings σ) (c : BackoffClient) (method path : String)
    (body : Option Json) (s : σ) : Except FetchError Http.Response × BackoffClient × σ :=
  match urlOr c.baseUrl.join path with
  | .error e => (.error e, c, s)
  | .ok url =>
    match c.backoff.cooling? url.path.text (w.now s) with
    | some retryAt => (.error (.cooling url.path.text retryAt), c, s)
    | none =>
      match attempt w c method url body false s with
      | (none, c, s) => (.error .transport, c, s)
      | (some response, c, s) =>
        if response.status = unauthorized then retry w c method url body response s
        else (.ok response, c, s)

end BackoffClient

/-! ## Refreshing at the service -/

/-- Fetches new tokens from the service itself, with the refresh token of the last answer. -/
structure TokenRefresher where
  endpoint : Url
  refreshToken : String

namespace TokenRefresher

def path : String := "/api/auth/refresh"

def new [HostNames] (base : Url) (refreshToken : String) : Except FetchError TokenRefresher := do
  return ⟨← BackoffClient.urlOr base.join path, refreshToken⟩

/-- The access token and the refresh token of an answer. -/
def tokensOf? (r : Http.Response) : Option (String × String) :=
  match Json.readRecord [.text "access_token", .text "refresh_token"] r.body with
  | .error _ => none
  | .ok ms => do
    return (← Json.required? Json.asStr? ms "access_token",
      ← Json.required? Json.asStr? ms "refresh_token")

/-- What an answer to a refresh gives: a new access token, and a refresh token to go on with. -/
def accept (r : TokenRefresher) : Option Http.Response → Except FetchError String × TokenRefresher
  | none => (.error .transport, r)
  | some response =>
    if Http.isSuccess response.status then
      match tokensOf? response with
      | some (access, next) => (.ok access, { r with refreshToken := next })
      | none => (.error .transport, r)
    else
      (.error (.refresh ("refresh endpoint answered " ++ Http.statusLine response.status)), r)

/-- The request for new tokens. -/
def message (r : TokenRefresher) : Http.Request :=
  BackoffClient.message none "POST" r.endpoint
    (some (.obj [("refresh_token", .str r.refreshToken)])) false

/-- Asks for new tokens. -/
def refresh {σ : Type} (w : Surroundings σ) (r : TokenRefresher) (s : σ) :
    Except FetchError String × TokenRefresher × σ :=
  if w.admits r.endpoint r.message then
    let (response?, s) := w.send r.endpoint r.message s
    let (token, r) := r.accept response?
    (token, r, s)
  else (.error .transport, r, s)

/-- What lies around a client that refreshes its token at the service. -/
def surround {σ : Type} (w : Surroundings σ) : Surroundings (TokenRefresher × σ) where
  now s := w.now s.2
  jitter bound s := w.jitter bound s.2
  admits := w.admits
  send url request s :=
    let (response?, outer) := w.send url request s.2
    (response?, s.1, outer)
  refresh? := some fun s =>
    let (token, r, outer) := refresh w s.1 s.2
    (token, r, outer)

end TokenRefresher

/-! ## The remote trigger

Asks a running service to poll its jobs. -/

namespace Trigger

def runPath : String := "/api/cron/run"

/-- What an answer to a poll request says. -/
def reportOf (r : Http.Response) : Except FetchError RunResponse :=
  if Http.isSuccess r.status then
    match (Json.read? r.body).bind RunResponse.ofJson? with
    | some report => .ok report
    | none => .error .transport
  else .error (.status r.status r.body)

/-- One poll at the service. -/
def run [HostNames] {σ : Type} (w : Surroundings σ) (c : BackoffClient) (s : σ) :
    Except FetchError RunResponse × BackoffClient × σ :=
  let (r, c, s) := c.request w "POST" runPath (some (.obj [])) s
  (r.bind reportOf, c, s)

end Trigger

end Cadence
