import Cadence.Text.Digits

/-!
# Settings

All settings of the service, by section, with the values that hold where nothing else is said.
A section that is missing as a whole has the values its structure gives; the reader of documents
has values of its own for the fields that are missing in a section that is there.
-/

namespace Cadence

/-- The version of the service. -/
def serviceVersion : String := "0.1.0"

/-! ## Values of single settings where nothing else is said -/

namespace Default

def appName : String := "crm-cron"

def host : String := "127.0.0.1"
def port : Nat := 3000
/-- in seconds, of the server and of the client -/
def requestTimeout : Nat := 30

def maxConnections : Nat := 10
def minConnections : Nat := 1
/-- in seconds -/
def connectionTimeout : Nat := 30

/-- in hours -/
def accessExpiration : Int := 1
/-- in hours -/
def refreshExpiration : Int := 168

def logLevel : String := "info"
def logPath : String := "logs/crm-cron.log"
def logFormat : String := "json"
/-- in bytes -/
def maxSize : Nat := 10 * 1024 * 1024
def maxFiles : Nat := 5

def batchLimit : Int := 100
def triggerSchedule : String := "0 * * * * *"

def baseUrl : String := "http://127.0.0.1:3000"
/-- in milliseconds, as all times of the backoff -/
def baseDelay : Nat := 500
def maxDelay : Nat := 15000
def jitter : Nat := 150
def extendedThreshold : Nat := 3
def extendedMax : Nat := 60000

end Default

/-! ## Sections -/

structure ApplicationSettings where
  name : String := Default.appName
  version : String := serviceVersion
  deriving DecidableEq, Repr, Inhabited

structure ServerSettings where
  host : String := Default.host
  port : Nat := Default.port
  /-- in seconds -/
  requestTimeout : Nat := Default.requestTimeout
  deriving DecidableEq, Repr, Inhabited

def ServerSettings.address (s : ServerSettings) : String := s!"{s.host}:{s.port}"

structure DatabaseSettings where
  url : String := ""
  maxConnections : Nat := Default.maxConnections
  minConnections : Nat := Default.minConnections
  /-- in seconds -/
  connectionTimeout : Nat := Default.connectionTimeout
  autoMigrate : Bool := false
  deriving DecidableEq, Repr, Inhabited

structure TokenSettings where
  secret : String := ""
  /-- in hours -/
  accessExpiration : Int := Default.accessExpiration
  /-- in hours -/
  refreshExpiration : Int := Default.refreshExpiration
  deriving DecidableEq, Repr, Inhabited

structure ConsoleSettings where
  enabled : Bool := true
  colored : Bool := true
  deriving DecidableEq, Repr, Inhabited

/-- When a log file is rotated, and how many files are kept, the active one included. -/
structure Rotation where
  enabled : Bool := true
  /-- in bytes -/
  maxSize : Nat := Default.maxSize
  maxFiles : Nat := Default.maxFiles
  compress : Bool := false
  deriving DecidableEq, Repr, Inhabited

structure FileSettings where
  enabled : Bool := false
  path : String := Default.logPath
  append : Bool := true
  format : String := Default.logFormat
  rotation : Rotation := {}
  deriving DecidableEq, Repr, Inhabited

structure LoggerSettings where
  level : String := Default.logLevel
  console : ConsoleSettings := {}
  file : FileSettings := {}
  deriving DecidableEq, Repr, Inhabited

/-- Where the job table is kept. -/
inductive StoreKind
  | postgres | memory
  deriving DecidableEq, Repr

instance : Inhabited StoreKind := ⟨.postgres⟩

namespace StoreKind

def name : StoreKind → String
  | postgres => "postgres"
  | memory => "memory"

def ofName? : String → Option StoreKind
  | "postgres" => some postgres
  | "memory" => some memory
  | _ => none

end StoreKind

/-- Polling from within the service. -/
structure TriggerSettings where
  enabled : Bool := false
  schedule : String := Default.triggerSchedule
  deriving DecidableEq, Repr, Inhabited

structure CronSettings where
  store : StoreKind := .postgres
  batchLimit : Int := Default.batchLimit
  seedOnStartup : Bool := false
  trigger : TriggerSettings := {}
  deriving DecidableEq, Repr, Inhabited

/-- How long a path is left alone after it was rate limited. Times are in milliseconds. -/
structure BackoffSettings where
  baseDelay : Nat := Default.baseDelay
  maxDelay : Nat := Default.maxDelay
  jitter : Nat := Default.jitter
  extendedThreshold : Nat := Default.extendedThreshold
  extendedMax : Nat := Default.extendedMax
  deriving DecidableEq, Repr, Inhabited

structure ClientSettings where
  baseUrl : String := Default.baseUrl
  /-- in seconds -/
  requestTimeout : Nat := Default.requestTimeout
  backoff : BackoffSettings := {}
  deriving DecidableEq, Repr, Inhabited

structure Settings where
  application : ApplicationSettings := {}
  server : ServerSettings := {}
  database : DatabaseSettings := {}
  jwt : TokenSettings := {}
  logger : LoggerSettings := {}
  cron : CronSettings := {}
  client : ClientSettings := {}
  deriving DecidableEq, Repr, Inhabited

end Cadence
