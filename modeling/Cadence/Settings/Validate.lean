import Cadence.Schedule.Expression
import Cadence.Settings.Basic
import Cadence.Settings.Error
import Cadence.Text.Basic

/-!
# Validation of settings

The ranges and formats of each section. The first rule that is broken is the error. The tokens are
not part of the whole: only commands that sign or verify tokens look at them.
-/

namespace Cadence

/-- Whether a section is in order, or the first thing that is not. -/
abbrev Validation := Except ConfigError Unit

/-- A rule: where `broken`, the field is wrong for the reason given. -/
def Validation.rule (broken : Bool) (field reason : String) : Validation :=
  if broken then .error (.validation field reason) else .ok ()

open Validation

namespace ServerSettings

def validate (s : ServerSettings) : Validation := do
  rule (s.port = 0) "server.port" "Port must be between 1 and 65535."
  rule (s.requestTimeout = 0) "server.request_timeout"
    "Request timeout must be greater than 0 seconds."

end ServerSettings

namespace DatabaseSettings

def hasScheme (url : String) : Bool :=
  "postgres://".toList.isPrefixOf url.toList || "postgresql://".toList.isPrefixOf url.toList

def validate (s : DatabaseSettings) : Validation := do
  rule s.url.isEmpty "database.url" "Database URL is required when cron.store is \"postgres\"."
  rule (!hasScheme s.url) "database.url"
    "Invalid database URL format. Expected postgres://[user:password@]host[:port]/database"
  rule (s.maxConnections = 0) "database.max_connections"
    "Maximum connections must be greater than 0."
  rule (s.minConnections = 0) "database.min_connections"
    "Minimum connections must be greater than 0."
  rule (s.maxConnections < s.minConnections) "database.min_connections"
    s!"Minimum connections ({s.minConnections}) cannot exceed maximum connections ({s.maxConnections})."

end DatabaseSettings

namespace TokenSettings

/-- The least length of a secret in bytes. -/
def minSecret : Nat := 32

def validate (s : TokenSettings) : Validation := do
  rule s.secret.isEmpty "jwt.secret" "JWT secret cannot be empty"
  rule (s.secret.utf8ByteSize < minSecret) "jwt.secret"
    "JWT secret should be at least 32 characters"
  rule (s.accessExpiration ≤ 0) "jwt.access_token_expiration"
    "Access token expiration must be positive"
  rule (s.refreshExpiration ≤ s.accessExpiration) "jwt.refresh_token_expiration"
    "Refresh token expiration must be longer than access token expiration"

end TokenSettings

namespace LoggerSettings

def formats : List String := ["full", "compact", "json"]

def validate (s : LoggerSettings) : Validation := do
  rule (Text.isBlankText s.level) "logger.level" "Log level cannot be empty"
  rule (s.file.enabled && s.file.path.isEmpty) "logger.file.path"
    "File path cannot be empty when file logging is enabled."
  rule (s.file.enabled && !formats.contains (Text.lower s.file.format)) "logger.file.format"
    s!"Invalid log format '{s.file.format}'. Valid formats are: full, compact, json"
  let rotates := s.file.enabled && s.file.rotation.enabled
  rule (rotates && s.file.rotation.maxSize = 0) "logger.file.rotation.max_size"
    "Rotation max_size must be greater than 0 bytes."
  rule (rotates && s.file.rotation.maxFiles = 0) "logger.file.rotation.max_files"
    "Rotation max_files must be greater than 0."
  rule (!s.console.enabled && !s.file.enabled) "logger"
    "At least one output (console or file) must be enabled"

end LoggerSettings

namespace CronSettings

/-- The most jobs that one poll may look at. -/
def maxBatchLimit : Int := 1000

def validate (s : CronSettings) : Validation := do
  rule (s.batchLimit ≤ 0 || decide (maxBatchLimit < s.batchLimit)) "cron.batch_limit"
    "Batch limit must be between 1 and 1000."
  rule (s.trigger.enabled && (Schedule.read? s.trigger.schedule).isNone) "cron.trigger.schedule"
    s!"Invalid trigger schedule '{s.trigger.schedule}'. Expected a six-field cron expression such as \"0 * * * * *\"."

end CronSettings

namespace BackoffSettings

def validate (s : BackoffSettings) : Validation := do
  rule (s.baseDelay = 0) "client.backoff.base_delay_ms" "Base delay must be greater than 0."
  rule (s.maxDelay < s.baseDelay) "client.backoff.max_delay_ms"
    "Maximum delay cannot be smaller than the base delay."
  rule (s.extendedThreshold = 0) "client.backoff.extended_threshold"
    "Extended cooling threshold must be at least 1."
  rule (s.extendedMax < s.maxDelay) "client.backoff.extended_max_ms"
    "Extended cooling cap cannot be smaller than the maximum delay."

end BackoffSettings

namespace ClientSettings

def hasScheme (url : String) : Bool :=
  "http://".toList.isPrefixOf url.toList || "https://".toList.isPrefixOf url.toList

def validate (s : ClientSettings) : Validation := do
  rule (!hasScheme s.baseUrl) "client.base_url" "Base URL must start with http:// or https://"
  rule (s.requestTimeout = 0) "client.request_timeout"
    "Request timeout must be greater than 0 seconds."
  s.backoff.validate

end ClientSettings

/-- All sections but the tokens; the database only where the job table is kept in it. -/
def Settings.validate (s : Settings) : Validation := do
  s.server.validate
  if s.cron.store = .postgres then s.database.validate
  s.logger.validate
  s.cron.validate
  s.client.validate

end Cadence
