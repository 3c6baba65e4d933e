import Cadence.Http.Message

/-!
# The description of the service

The OpenAPI document of the routes, and where the page is that shows it.
-/

namespace Cadence.Http.Docs

def documentPath : String := "/api-docs/openapi.json"

def pagePath : String := "/swagger-ui"

/-- A route as the document shows it. -/
structure Entry where
  path : String
  method : String
  tag : String
  secured : Bool
  statuses : List Nat

def entries : List Entry :=
  [⟨"/api/auth/refresh", "post", "Auth", false, [200, 400, 401]⟩,
    ⟨"/api/cron/jobs", "get", "Cron", true, [200, 401, 403]⟩,
    ⟨"/api/cron/run", "post", "Cron", true, [200, 401, 403, 500, 503]⟩,
    ⟨"/api/cron/seed", "post", "Cron", true, [200, 401, 403]⟩,
    ⟨"/api/policy/diagnose", "post", "Policy", true, [200, 400, 401]⟩,
    ⟨"/health", "get", "Health", false, [200, 503]⟩,
    ⟨"/health/live", "get", "Health", false, [200]⟩,
    ⟨"/health/ready", "get", "Health", false, [200, 503]⟩]

/-- The names of the bodies. -/
def schemas : List String :=
  ["ComponentHealth", "CronJobResponse", "CronRunResponse", "Decision", "DecisionReason",
    "DiagnoseRequest", "DiagnoseResponse", "EmployeeRole", "ErrorResponse", "HealthResponse",
    "HealthStatus", "JobOutcome", "JobOutcomeStatus", "PolicyCheck", "PollSummary",
    "RefreshTokenRequest", "Role", "SeedReport", "Tier", "TokenResponse"]

def schemeName : String := "bearerAuth"

def Entry.toJson (e : Entry) : Json :=
  let security := if e.secured then some (.arr [.obj [(schemeName, .arr [])]]) else none
  .obj (Json.present
    [("responses", some (.obj (e.statuses.map fun s => (toString s, .obj [])))),
      ("security", security), ("tags", some (.ofStrings [e.tag]))])

def scheme : Json :=
  .obj [("bearerFormat", .str "JWT"), ("description", .str "JWT Bearer Token Authentication"),
    ("scheme", .str "bearer"), ("type", .str "http")]

def document : Json :=
  .obj [("components", .obj [("schemas", .obj (schemas.map fun n => (n, .obj []))),
      ("securitySchemes", .obj [(schemeName, scheme)])]),
    ("info", .obj [("title", .str "crm-cron")]), ("openapi", .str "3.1.0"),
    ("paths", .obj (entries.map fun e => (e.path, .obj [(e.method, e.toJson)])))]

end Cadence.Http.Docs
