import Cadence.Settings.Error
import Cadence.Text.Basic

/-!
# Environments

The environment that an installation runs in.
-/

namespace Cadence

/-- Variables of the environment, each name once. -/
abbrev Variables := List (String × String)

inductive Environment
  | development | test | staging | production
  deriving DecidableEq, Repr, Inhabited

namespace Environment

def all : List Environment := [development, test, staging, production]

def name : Environment → String
  | development => "development"
  | test => "test"
  | staging => "staging"
  | production => "production"

/-- The environment that a word names, in any case. -/
def parse (s : String) : Except ConfigError Environment :=
  match Text.lower s with
  | "development" | "dev" => .ok development
  | "test" => .ok test
  | "staging" | "stage" => .ok staging
  | "production" | "prod" => .ok production
  | _ => .error (.environment
      s!"Invalid environment '{s}'. Valid values are: development, test, staging, production")

/-- The environment that variables ask for. An unknown one counts as development. -/
def ofVariables (vars : Variables) : Environment :=
  match (vars.lookup "CRM_APP_ENV").map parse with
  | some (.ok e) => e
  | _ => development

def isProduction (e : Environment) : Bool := e = production

end Environment

end Cadence
