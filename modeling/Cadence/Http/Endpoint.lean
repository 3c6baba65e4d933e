import Cadence.Http.Docs

/-!
# Endpoints

The places of the service. A path is matched as it was sent, character by character. The guarded
endpoints want a caller who is known.
-/

namespace Cadence.Http

/-- The endpoints that are open to all. -/
inductive OpenEndpoint
  | health | live | ready | refresh | document | pageRedirect
  /-- a file of the page that shows the document -/
  | page (file : String)
  deriving DecidableEq, Repr

/-- The endpoints for callers with a token. -/
inductive GuardedEndpoint
  | run | jobs | seed | diagnose
  deriving DecidableEq, Repr

inductive Endpoint
  | toAll (e : OpenEndpoint)
  | guarded (e : GuardedEndpoint)
  deriving DecidableEq, Repr

namespace Endpoint

/-- The endpoints of the description, which an installation may leave out. -/
def ofDocsPath? (path : String) : Option OpenEndpoint :=
  if path = Docs.documentPath then some .document
  else if path = Docs.pagePath then some .pageRedirect
  else
    let start := (Docs.pagePath ++ "/").toList
    if start.isPrefixOf path.toList then
      some (.page (String.ofList (path.toList.drop start.length)))
    else none

def ofPath? (docs : Bool) (path : String) : Option Endpoint :=
  match path with
  | "/health" => some (toAll .health)
  | "/health/live" => some (toAll .live)
  | "/health/ready" => some (toAll .ready)
  | "/api/auth/refresh" => some (toAll .refresh)
  | "/api/cron/run" => some (guarded .run)
  | "/api/cron/jobs" => some (guarded .jobs)
  | "/api/cron/seed" => some (guarded .seed)
  | "/api/policy/diagnose" => some (guarded .diagnose)
  | path => if docs then (ofDocsPath? path).map toAll else none

/-- The endpoint takes posts; all others are read. -/
def takesPost : Endpoint → Bool
  | toAll .refresh | guarded .run | guarded .seed | guarded .diagnose => true
  | _ => false

def accepts (e : Endpoint) (method : String) : Bool :=
  if e.takesPost then method = "POST" else method = "GET" || method = "HEAD"

/-- The methods as a header lists them. -/
def allow (e : Endpoint) : String := if e.takesPost then "POST" else "GET,HEAD"

end Endpoint

end Cadence.Http
