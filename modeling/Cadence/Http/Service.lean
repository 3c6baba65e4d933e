import Cadence.Http.Body
import Cadence.Http.Endpoint
import Cadence.Http.Envelope
import Cadence.Job.Poll
import Cadence.Job.Seed
import Cadence.Settings.Basic
import Cadence.Token.Basic

/-!
# The service

From a request to a response. A request is a course of calls on the job store: what it does to the
jobs and what it tells of them goes through these calls alone.
-/

namespace Cadence.Http

/-- The content coding of responses, such as gzip. Which one a response goes out under is chosen by
the headers of the request. -/
structure Coding where
  choose : List Header → Response → Option String
  encode : (name text : String) → String
  decode? : (name body : String) → Option String
  decode?_encode : ∀ name text, decode? name (encode name text) = some text
  /-- a request that asks for no coding gets none -/
  unasked : ∀ headers r, headers.lookup "accept-encoding" = none → choose headers r = none

namespace Coding

/-- No response is coded. -/
def plain : Coding where
  choose _ _ := none
  encode _ text := text
  decode? _ body := some body
  decode?_encode _ _ := rfl
  unasked _ _ _ := rfl

def apply (c : Coding) (headers : List Header) (r : Response) : Response :=
  match c.choose headers r with
  | some name =>
    { r with body := c.encode name r.body }.withHeader "content-encoding" name
  | none => r

/-- The response as a client has it that undoes the coding. -/
def read? (c : Coding) (r : Response) : Option Response :=
  match r.headers.lookup "content-encoding" with
  | some name => (c.decode? name r.body).map fun text => { r with body := text }
  | none => some r

end Coding

/-- A file of the page that shows the description. -/
structure PageFile where
  type : String
  text : String

/-- How an installation of the service is set up. -/
structure Service where
  tokens : TokenSettings
  batchLimit : Int
  /-- the description is served, too -/
  docs : Bool
  /-- the files of the page that shows the description -/
  page? : String → Option PageFile := fun _ => none
  coding : Coding := .plain

/-- The circumstances of a request. -/
structure Arrival where
  now : Instant
  /-- an id for a request that brings none -/
  freshId : String
  /-- the milliseconds that the work takes -/
  elapsedMs : Nat
  deriving Repr

/-! ## Callers -/

/-- The principal whose access token the request bears. -/
def authenticate (s : Service) (a : Arrival) (r : Request) : Except ServiceError Principal :=
  match visible? r.headers "authorization" with
  | none => .error (.unauthorized "Missing authorization header")
  | some v => match Text.dropPrefix? "Bearer ".toList v.toList with
    | none =>
      .error (.unauthorized "Invalid authorization header format. Expected: Bearer <token>")
    | some token =>
      match Token.validate a.now.unixSeconds s.tokens.secret (some .access) (String.ofList token) with
      | .ok claims => .ok claims.principal
      | .error f => .error f.toError

/-- Work that only an administrator may ask for. -/
def asAdmin (caller : Principal) (work : StoreScript Reply) : StoreScript Reply :=
  match Policy.authorize caller .cronAdmin with
  | .ok () => work
  | .error e => return .error e

/-! ## Endpoints -/

/-- The health of a service whose jobs are in memory: there is nothing that could be down. -/
def health (a : Arrival) : Json :=
  let store := .obj [("status", .str "healthy"), ("message", .str "memory store"),
    ("response_time_ms", .ofNat a.elapsedMs)]
  .obj [("status", .str "healthy"), ("version", .str serviceVersion),
    ("timestamp", .str (Stamp.writeOffset a.now)), ("checks", .obj [("store", store)])]

/-- The principal whose refresh token the request brings. -/
def refreshed (s : Service) (a : Arrival) (r : Request) : Except ServiceError Principal := do
  let token ← refreshTokenOf r
  let claims ← (Token.validate a.now.unixSeconds s.tokens.secret (some .refresh) token).mapError
    Token.Fault.toError
  return claims.principal

/-- A new pair of tokens for the principal of a refresh token. An expiry beyond the calendar breaks
the work off. -/
def refresh (s : Service) (a : Arrival) (r : Request) : StoreScript Reply :=
  match refreshed s a r with
  | .error e => return .error e
  | .ok principal => do
    let pair ← .ofOption (Token.issuePair? principal s.tokens.secret s.tokens.accessExpiration
      s.tokens.refreshExpiration a.now)
    return .ok (.json 200 (Token.Response.bearer pair s.tokens.accessExpiration).toJson)

def openReply (s : Service) (a : Arrival) (r : Request) : OpenEndpoint → StoreScript Reply
  | .health => return .ok (.json 200 (health a))
  | .live | .ready => return .ok (.ofStatus 200)
  | .refresh => refresh s a r
  | .document => return .ok (.json 200 Docs.document)
  | .pageRedirect => return .ok ⟨303, [("location", Docs.pagePath ++ "/")], ""⟩
  | .page file =>
    match s.page? file with
    | some f => return .ok ⟨200, [("content-type", f.type)], f.text⟩
    | none => return .ok (.ofStatus 404)

def guardedReply (s : Service) (a : Arrival) (r : Request) (caller : Principal) :
    GuardedEndpoint → StoreScript Reply
  | .run => asAdmin caller do
    let report ← poll s.batchLimit a.now a.elapsedMs
    return report.map fun report => .json 200 (RunResponse.ofReport report).toJson
  | .jobs => asAdmin caller do
    let rows : Except ServiceError (List Job) ← .send .list
    return rows.map fun rows => .json 200 (.arr (rows.map Job.toJson))
  | .seed => asAdmin caller do
    return (← seedAll).map fun report => .json 200 report.toJson
  | .diagnose => return do
    let d := Policy.diagnose caller (← recordOf r)
    return .json 200 (.obj [("user_id", .str caller.userId), ("decision", d.decision.toJson),
      ("checks", .arr (d.checks.map PolicyCheck.toJson))])

/-- The reply of a place. A caller is looked at before the method is. -/
def replyOf (s : Service) (a : Arrival) (r : Request) (e : Endpoint) : StoreScript Reply :=
  let wrongMethod : Reply := .ok (.ofStatus 405)
  match e with
  | .toAll o => if e.accepts r.method then openReply s a r o else return wrongMethod
  | .guarded g =>
    match authenticate s a r with
    | .error fault => return .error fault
    | .ok caller => if e.accepts r.method then guardedReply s a r caller g else return wrongMethod

/-! ## Responses -/

/-- The request's own id, or a fresh one. -/
def requestId (a : Arrival) (r : Request) : String :=
  ((visible? r.headers "x-request-id").filter (· ≠ "")).getD a.freshId

/-- Any page of any site may read a response. -/
def withOrigin (r : Response) : Response := r.withHeader "access-control-allow-origin" "*"

/-- The answer to the question what a page of another site may send. -/
def preflight : Response :=
  withOrigin ⟨200, [("access-control-allow-methods", "GET,POST"),
    ("access-control-allow-headers", "authorization,content-type")], ""⟩

/-- A response names the methods of its place when the request had another one. -/
def withAllow (e? : Option Endpoint) (method : String) (r : Response) : Response :=
  match e? with
  | some e => if e.accepts method then r else r.withHeader "allow" e.allow
  | none => r

/-- The response to a request that only asks for the headers has no body. -/
def withoutBody (method : String) (r : Response) : Response :=
  if method = "HEAD" then { r with body := "" } else r

/-- The response to a request. -/
def respond (s : Service) (a : Arrival) (r : Request) : StoreScript Response := do
  let e? := Endpoint.ofPath? s.docs r.path
  if r.method = "OPTIONS" then return withAllow e? r.method preflight
  let reply ← match e? with
    | some e => replyOf s a r e
    | none => pure (.ok (.ofStatus 404))
  let id := requestId a r
  let response := (Envelope.enclose (some id) reply).withHeader "x-request-id" id
  let coded := s.coding.apply r.headers response
  return withoutBody r.method (withAllow e? r.method (withOrigin coded))

end Cadence.Http
