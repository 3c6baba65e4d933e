import Cadence.Json.Decode
import Cadence.Settings.Basic

/-!
# Settings as documents

How settings are written as JSON, and how they are read from documents. Every field may be missing;
the reader of its section says which value it then has. The reading is the same for all kinds of
document; what counts as a truth value, a number or a text is up to the kind.
-/

namespace Cadence

/-- A kind of document: what its values may be read as. -/
structure DocumentKind (V : Type) where
  /-- the fields of a section -/
  record? : List Json.FieldSpec → V → Option (List (String × V))
  bool? : V → Option Bool
  str? : V → Option String
  /-- an integer within limits -/
  int? : Int → Int → V → Option Int
  /-- the name of a choice -/
  choice? : V → Option String

/-- JSON documents; each value is of exactly one kind. -/
def DocumentKind.json : DocumentKind Json where
  record? := Json.record?
  bool? := Json.asBool?
  str? := Json.asStr?
  int? := Json.asIntIn?
  choice? := Json.asChoice?

namespace DocumentKind

variable {V : Type} (k : DocumentKind V)

/-- The fields of a section all of whose fields may be missing. -/
def section? (names : List String) (v : V) : Option (List (String × V)) :=
  k.record? (names.map .defaulted) v

/-- A field, or the given value if it is missing. -/
def field? {α : Type} (read : V → Option α) (ms : List (String × V)) (name : String) (default : α) :
    Option α :=
  match ms.lookup name with
  | some v => read v
  | none => some default

def nat? (bound : Nat) (v : V) : Option Nat := (k.int? 0 bound v).map Int.toNat

end DocumentKind

open DocumentKind

namespace ApplicationSettings

def toJson (s : ApplicationSettings) : Json :=
  .obj [("name", .str s.name), ("version", .str s.version)]

def read? {V : Type} (k : DocumentKind V) (v : V) : Option ApplicationSettings := do
  let ms ← k.section? ["name", "version"] v
  return {
    name := ← field? k.str? ms "name" Default.appName
    version := ← field? k.str? ms "version" serviceVersion }

end ApplicationSettings

namespace ServerSettings

def toJson (s : ServerSettings) : Json :=
  .obj [("host", .str s.host), ("port", .ofNat s.port), ("request_timeout", .ofNat s.requestTimeout)]

def read? {V : Type} (k : DocumentKind V) (v : V) : Option ServerSettings := do
  let ms ← k.section? ["host", "port", "request_timeout"] v
  return {
    host := ← field? k.str? ms "host" Default.host
    port := ← field? (k.nat? Text.u16Max) ms "port" Default.port
    requestTimeout := ← field? (k.nat? Text.u64Max) ms "request_timeout" Default.requestTimeout }

end ServerSettings

namespace DatabaseSettings

def toJson (s : DatabaseSettings) : Json :=
  .obj [("url", .str s.url), ("max_connections", .ofNat s.maxConnections),
    ("min_connections", .ofNat s.minConnections),
    ("connection_timeout", .ofNat s.connectionTimeout), ("auto_migrate", .bool s.autoMigrate)]

def read? {V : Type} (k : DocumentKind V) (v : V) : Option DatabaseSettings := do
  let ms ← k.section?
    ["url", "max_connections", "min_connections", "connection_timeout", "auto_migrate"] v
  return {
    url := ← field? k.str? ms "url" ""
    maxConnections := ← field? (k.nat? Text.u32Max) ms "max_connections" Default.maxConnections
    minConnections := ← field? (k.nat? Text.u32Max) ms "min_connections" Default.minConnections
    connectionTimeout :=
      ← field? (k.nat? Text.u64Max) ms "connection_timeout" Default.connectionTimeout
    autoMigrate := ← field? k.bool? ms "auto_migrate" false }

end DatabaseSettings

namespace TokenSettings

def toJson (s : TokenSettings) : Json :=
  .obj [("secret", .str s.secret), ("access_token_expiration", .int s.accessExpiration),
    ("refresh_token_expiration", .int s.refreshExpiration)]

def read? {V : Type} (k : DocumentKind V) (v : V) : Option TokenSettings := do
  let ms ← k.section? ["secret", "access_token_expiration", "refresh_token_expiration"] v
  let hours := k.int? Text.i64Min Text.i64Max
  return {
    secret := ← field? k.str? ms "secret" ""
    accessExpiration := ← field? hours ms "access_token_expiration" Default.accessExpiration
    refreshExpiration := ← field? hours ms "refresh_token_expiration" Default.refreshExpiration }

end TokenSettings

namespace ConsoleSettings

def toJson (s : ConsoleSettings) : Json :=
  .obj [("enabled", .bool s.enabled), ("colored", .bool s.colored)]

def read? {V : Type} (k : DocumentKind V) (v : V) : Option ConsoleSettings := do
  let ms ← k.section? ["enabled", "colored"] v
  return {
    enabled := ← field? k.bool? ms "enabled" true
    colored := ← field? k.bool? ms "colored" true }

end ConsoleSettings

namespace Rotation

def fields : List String := ["enabled", "max_size", "max_files", "compress"]

def toJson (s : Rotation) : Json :=
  .obj [("enabled", .bool s.enabled), ("max_size", .ofNat s.maxSize),
    ("max_files", .ofNat s.maxFiles), ("compress", .bool s.compress)]

def read? {V : Type} (k : DocumentKind V) (v : V) : Option Rotation := do
  let ms ← k.section? fields v
  return {
    enabled := ← field? k.bool? ms "enabled" true
    maxSize := ← field? (k.nat? Text.u64Max) ms "max_size" Default.maxSize
    maxFiles := ← field? (k.nat? Text.u64Max) ms "max_files" Default.maxFiles
    compress := ← field? k.bool? ms "compress" false }

end Rotation

namespace FileSettings

def toJson (s : FileSettings) : Json :=
  .obj [("enabled", .bool s.enabled), ("path", .str s.path), ("append", .bool s.append),
    ("format", .str s.format), ("rotation", s.rotation.toJson)]

def read? {V : Type} (k : DocumentKind V) (v : V) : Option FileSettings := do
  let ms ← k.section? ["enabled", "path", "append", "format", "rotation"] v
  return {
    enabled := ← field? k.bool? ms "enabled" false
    path := ← field? k.str? ms "path" Default.logPath
    append := ← field? k.bool? ms "append" true
    format := ← field? k.str? ms "format" Default.logFormat
    rotation := ← field? (Rotation.read? k) ms "rotation" {} }

end FileSettings

namespace LoggerSettings

def toJson (s : LoggerSettings) : Json :=
  .obj [("level", .str s.level), ("console", s.console.toJson), ("file", s.file.toJson)]

def read? {V : Type} (k : DocumentKind V) (v : V) : Option LoggerSettings := do
  let ms ← k.section? ["level", "console", "file"] v
  return {
    level := ← field? k.str? ms "level" Default.logLevel
    console := ← field? (ConsoleSettings.read? k) ms "console" {}
    file := ← field? (FileSettings.read? k) ms "file" {} }

end LoggerSettings

namespace TriggerSettings

def toJson (s : TriggerSettings) : Json :=
  .obj [("enabled", .bool s.enabled), ("schedule", .str s.schedule)]

def read? {V : Type} (k : DocumentKind V) (v : V) : Option TriggerSettings := do
  let ms ← k.section? ["enabled", "schedule"] v
  return {
    enabled := ← field? k.bool? ms "enabled" false
    schedule := ← field? k.str? ms "schedule" Default.triggerSchedule }

end TriggerSettings

namespace CronSettings

def toJson (s : CronSettings) : Json :=
  .obj [("store", .str s.store.name), ("batch_limit", .int s.batchLimit),
    ("seed_on_startup", .bool s.seedOnStartup), ("trigger", s.trigger.toJson)]

def read? {V : Type} (k : DocumentKind V) (v : V) : Option CronSettings := do
  let ms ← k.section? ["store", "batch_limit", "seed_on_startup", "trigger"] v
  return {
    store := ← field? (fun v => (k.choice? v).bind StoreKind.ofName?) ms "store" default
    batchLimit := ← field? (k.int? Text.i64Min Text.i64Max) ms "batch_limit" Default.batchLimit
    seedOnStartup := ← field? k.bool? ms "seed_on_startup" false
    trigger := ← field? (TriggerSettings.read? k) ms "trigger" {} }

end CronSettings

namespace BackoffSettings

def toJson (s : BackoffSettings) : Json :=
  .obj [("base_delay_ms", .ofNat s.baseDelay), ("max_delay_ms", .ofNat s.maxDelay),
    ("jitter_ms", .ofNat s.jitter), ("extended_threshold", .ofNat s.extendedThreshold),
    ("extended_max_ms", .ofNat s.extendedMax)]

def read? {V : Type} (k : DocumentKind V) (v : V) : Option BackoffSettings := do
  let ms ← k.section?
    ["base_delay_ms", "max_delay_ms", "jitter_ms", "extended_threshold", "extended_max_ms"] v
  return {
    baseDelay := ← field? (k.nat? Text.u64Max) ms "base_delay_ms" Default.baseDelay
    maxDelay := ← field? (k.nat? Text.u64Max) ms "max_delay_ms" Default.maxDelay
    jitter := ← field? (k.nat? Text.u64Max) ms "jitter_ms" Default.jitter
    extendedThreshold :=
      ← field? (k.nat? Text.u32Max) ms "extended_threshold" Default.extendedThreshold
    extendedMax := ← field? (k.nat? Text.u64Max) ms "extended_max_ms" Default.extendedMax }

end BackoffSettings

namespace ClientSettings

def toJson (s : ClientSettings) : Json :=
  .obj [("base_url", .str s.baseUrl), ("request_timeout", .ofNat s.requestTimeout),
    ("backoff", s.backoff.toJson)]

def read? {V : Type} (k : DocumentKind V) (v : V) : Option ClientSettings := do
  let ms ← k.section? ["base_url", "request_timeout", "backoff"] v
  return {
    baseUrl := ← field? k.str? ms "base_url" Default.baseUrl
    requestTimeout := ← field? (k.nat? Text.u64Max) ms "request_timeout" Default.requestTimeout
    backoff := ← field? (BackoffSettings.read? k) ms "backoff" {} }

end ClientSettings

namespace Settings

def toJson (s : Settings) : Json :=
  .obj [("application", s.application.toJson), ("server", s.server.toJson),
    ("database", s.database.toJson), ("jwt", s.jwt.toJson), ("logger", s.logger.toJson),
    ("cron", s.cron.toJson), ("client", s.client.toJson)]

def read? {V : Type} (k : DocumentKind V) (v : V) : Option Settings := do
  let ms ← k.section? ["application", "server", "database", "jwt", "logger", "cron", "client"] v
  return {
    application := ← field? (ApplicationSettings.read? k) ms "application" {}
    server := ← field? (ServerSettings.read? k) ms "server" {}
    database := ← field? (DatabaseSettings.read? k) ms "database" {}
    jwt := ← field? (TokenSettings.read? k) ms "jwt" {}
    logger := ← field? (LoggerSettings.read? k) ms "logger" {}
    cron := ← field? (CronSettings.read? k) ms "cron" {}
    client := ← field? (ClientSettings.read? k) ms "client" {} }

def ofJson? (v : Json) : Option Settings := read? .json v

end Settings

end Cadence
