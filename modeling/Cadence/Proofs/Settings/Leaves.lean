import Cadence.Settings.Decode
import Mathlib.Data.List.Basic

/-!
# The leaves of the settings

Each single setting stands at a path in a document. A reader of settings is described by its leaves:
what it gives has at each leaf what the document says there, or the value that holds where nothing
else is said; and it gives something as soon as all leaves can be read.
-/

namespace Cadence

variable {V A B : Type}

/-! ## Slots -/

/-- A part of a value: what was found for it, and what it is in the end. -/
structure Slot (A : Type) where
  Content : Type
  found : Option Content
  get : A → Content

/-- The outcome has in each slot what was found for it, and there is an outcome if all was found. -/
structure Gathers (outcome : Option A) (slots : List (Slot A)) : Prop where
  found {a : A} (h : outcome = some a) : ∀ s ∈ slots, s.found = some (s.get a)
  there (h : ∀ s ∈ slots, s.found.isSome = true) : ∃ a, outcome = some a

namespace Gathers

variable {slots : List (Slot A)}

theorem done {a : A} (h : slots.Forall fun s => s.found = some (s.get a)) :
    Gathers (some a) slots where
  found := by
    rintro a ⟨⟩
    exact List.forall_iff_forall_mem.mp h
  there _ := ⟨a, rfl⟩

theorem bind {C : Type} {q : Option C} {g : A → C} (n : Nat) (hslot : slots[n]? = some ⟨C, q, g⟩)
    {f : C → Option A} (h : ∀ c, q = some c → Gathers (f c) slots) :
    Gathers (q.bind f) slots where
  found := by
    intro a ha
    obtain ⟨c, hc, ha⟩ := Option.bind_eq_some_iff.mp ha
    exact (h c hc).found ha
  there := by
    intro hall
    obtain ⟨c, hc⟩ := Option.isSome_iff_exists.mp (hall _ (List.mem_of_getElem? hslot))
    rw [show q = some c from hc]
    exact (h c hc).there hall

end Gathers

/-! ## Leaves -/

/-- A single value in a larger one: where it stands in a document, how it is read there, and what it
is. -/
structure Leaf (V A : Type) where
  Content : Type
  path : List String
  read? : V → Option Content
  get : A → Content

/-- A leaf of a part that has a name is a leaf of the whole. -/
def Leaf.within (x : Leaf V A) (name : String) (part : B → A) : Leaf V B :=
  ⟨x.Content, name :: x.path, x.read?, x.get ∘ part⟩

/-- A field of a section; it is a single value or a section of its own. -/
structure Part (V A : Type) where
  Content : Type
  name : String
  read? : V → Option Content
  leaves : List (Leaf V Content)
  get : A → Content

namespace Part

def leaf {C : Type} (name : String) (read? : V → Option C) (get : A → C) : Part V A :=
  ⟨C, name, read?, [⟨C, [], read?, id⟩], get⟩

def leavesOf (parts : List (Part V A)) : List (Leaf V A) :=
  parts.flatMap fun f => f.leaves.map fun x => x.within f.name f.get

def branch {C : Type} (name : String) (read? : V → Option C) (parts : List (Part V C))
    (get : A → C) : Part V A :=
  ⟨C, name, read?, leavesOf parts, get⟩

def slot (f : Part V A) (d : A) (ms : List (String × V)) : Slot A :=
  ⟨f.Content, DocumentKind.field? f.read? ms f.name (f.get d), f.get⟩

end Part

namespace DocumentKind

variable (k : DocumentKind V)

/-- The value is a table: whatever fields are asked for, they are among its members. -/
def IsTable (v : V) (ms : List (String × V)) : Prop := ∀ fields, k.record? fields v = some ms

def find? : List String → V → Option V
  | [], v => some v
  | name :: path, v => ((k.record? [] v).bind (·.lookup name)).bind (find? path)

/-- All values on the way along a path are tables. -/
def Leads : List String → V → Prop
  | [], _ => True
  | name :: path, v => ∃ ms, k.IsTable v ms ∧ ∀ w, ms.lookup name = some w → Leads path w

theorem IsTable.section? {k : DocumentKind V} {v : V} {ms : List (String × V)} (h : k.IsTable v ms)
    (names : List String) : k.section? names v = some ms := h _

theorem IsTable.find? {k : DocumentKind V} {v : V} {ms : List (String × V)} (h : k.IsTable v ms)
    (name : String) (path : List String) :
    k.find? (name :: path) v = (ms.lookup name).bind (k.find? path) := by
  rw [DocumentKind.find?, h]
  rfl

end DocumentKind

variable {k : DocumentKind V}

/-- What is read at a leaf, or the given value where nothing is said. -/
def Leaf.readOr? (x : Leaf V A) (d : A) : Option V → Option x.Content
  | some w => x.read? w
  | none => some (x.get d)

def Leaf.valueIn? (k : DocumentKind V) (x : Leaf V A) (d : A) (v : V) : Option x.Content :=
  x.readOr? d (k.find? x.path v)

def Leaf.slot (k : DocumentKind V) (x : Leaf V A) (d : A) (v : V) : Slot A :=
  ⟨x.Content, x.valueIn? k d v, x.get⟩

/-- The reader takes from each document the values at the leaves, and nothing else. -/
structure ReadsLeaves (k : DocumentKind V) (read? : V → Option A) (leaves : List (Leaf V A))
    (d : A) : Prop where
  gathers (v : V) (h : ∀ x ∈ leaves, k.Leads x.path v) :
    Gathers (read? v) (leaves.map (·.slot k d v))
  determined {a b : A} (h : ∀ x ∈ leaves, x.get a = x.get b) : a = b

theorem reads_leaf {C : Type} (read? : V → Option C) (d : C) :
    ReadsLeaves k read? [⟨C, [], read?, id⟩] d := by
  refine ⟨fun v _ => ⟨fun {a} h => ?_, fun h => ?_⟩, fun h => h _ List.mem_cons_self⟩
  · simp only [List.map_cons, List.map_nil, List.forall_mem_cons]
    exact ⟨h, nofun⟩
  · exact Option.isSome_iff_exists.mp (h _ List.mem_cons_self)

theorem valueIn?_within {ms : List (String × V)} {v : V} (h : k.IsTable v ms) (f : Part V A)
    (x : Leaf V f.Content) (d : A) :
    (x.within f.name f.get).valueIn? k d v =
      match ms.lookup f.name with
      | some w => x.valueIn? k (f.get d) w
      | none => some (x.get (f.get d)) := by
  have hfind : k.find? (x.within f.name f.get).path v = (ms.lookup f.name).bind (k.find? x.path) :=
    h.find? f.name x.path
  unfold Leaf.valueIn?
  rw [hfind]
  cases ms.lookup f.name <;> rfl

theorem gathers_part {f : Part V A} {d : A} (h : ReadsLeaves k f.read? f.leaves (f.get d)) {v : V}
    {ms : List (String × V)} (hms : k.IsTable v ms)
    (hleads : ∀ x ∈ f.leaves, k.Leads (f.name :: x.path) v) :
    Gathers (f.slot d ms).found
      (f.leaves.map fun x => ⟨x.Content, (x.within f.name f.get).valueIn? k d v, x.get⟩) := by
  unfold Part.slot DocumentKind.field?
  simp only [valueIn?_within hms]
  cases hw : ms.lookup f.name with
  | none =>
    refine .done (List.forall_iff_forall_mem.mpr fun s hs => ?_)
    obtain ⟨x, -, rfl⟩ := List.mem_map.mp hs
    rfl
  | some w =>
    refine h.gathers w fun x hx => ?_
    obtain ⟨ms', hms', hpath⟩ := hleads x hx
    have hsame : some ms' = some ms := (hms' []).symm.trans (hms [])
    exact hpath w (Option.some.inj hsame ▸ hw)

theorem Part.mem_leavesOf {parts : List (Part V A)} {x : Leaf V A} :
    x ∈ Part.leavesOf parts ↔
      ∃ f ∈ parts, ∃ y ∈ f.leaves, y.within f.name f.get = x := by
  unfold Part.leavesOf
  simp only [List.mem_flatMap, List.mem_map]

theorem gathers_section {read? : V → Option A} {parts : List (Part V A)} {d : A} {v : V}
    {ms : List (String × V)} (hms : k.IsTable v ms)
    (hsection : Gathers (read? v) (parts.map (·.slot d ms)))
    (hparts : ∀ f ∈ parts, ReadsLeaves k f.read? f.leaves (f.get d))
    (hleads : ∀ x ∈ Part.leavesOf parts, k.Leads x.path v) :
    Gathers (read? v) ((Part.leavesOf parts).map (·.slot k d v)) := by
  have hpart : ∀ f ∈ parts, Gathers (f.slot d ms).found
      (f.leaves.map fun x => ⟨x.Content, (x.within f.name f.get).valueIn? k d v, x.get⟩) :=
    fun f hf => gathers_part (hparts f hf) hms fun x hx =>
      hleads _ (Part.mem_leavesOf.mpr ⟨f, hf, x, hx, rfl⟩)
  refine ⟨fun {a} ha s hs => ?_, fun hall => hsection.there fun s hs => ?_⟩
  · -- A leaf of a part is found in what the part was read as.
    obtain ⟨x, hx, rfl⟩ := List.mem_map.mp hs
    obtain ⟨f, hf, y, hy, rfl⟩ := Part.mem_leavesOf.mp hx
    have hcontent := hsection.found ha _ (List.mem_map_of_mem hf)
    exact (hpart f hf).found hcontent _ (List.mem_map_of_mem hy)
  · -- A part is read if all its leaves are.
    obtain ⟨f, hf, rfl⟩ := List.mem_map.mp hs
    refine Option.isSome_iff_exists.mpr ((hpart f hf).there fun s hs => ?_)
    obtain ⟨x, hx, rfl⟩ := List.mem_map.mp hs
    have hwithin := Part.mem_leavesOf.mpr ⟨f, hf, x, hx, rfl⟩
    exact hall _ (List.mem_map_of_mem hwithin)

theorem reads_section {read? : V → Option A} {parts : List (Part V A)} {d : A}
    (hleaves : Part.leavesOf parts ≠ [])
    (hsection : ∀ {v ms}, k.IsTable v ms → Gathers (read? v) (parts.map (·.slot d ms)))
    (hext : ∀ {a b}, (parts.Forall fun f => f.get a = f.get b) → a = b)
    (hparts : parts.Forall fun f => ReadsLeaves k f.read? f.leaves (f.get d)) :
    ReadsLeaves k read? (Part.leavesOf parts) d := by
  rw [List.forall_iff_forall_mem] at hparts
  refine ⟨fun v hleads => ?_, fun h => ?_⟩
  · -- A path that leads to a leaf begins in a table.
    obtain ⟨x, hx⟩ := List.exists_mem_of_ne_nil _ hleaves
    obtain ⟨f, -, y, -, rfl⟩ := Part.mem_leavesOf.mp hx
    obtain ⟨ms, hms, -⟩ := hleads _ hx
    exact gathers_section hms (hsection hms) hparts hleads
  · refine hext (List.forall_iff_forall_mem.mpr fun f hf => (hparts f hf).determined fun x hx => ?_)
    exact h _ (Part.mem_leavesOf.mpr ⟨f, hf, x, hx, rfl⟩)

theorem Gathers.section {v : V} {ms : List (String × V)} (h : k.IsTable v ms) {names : List String}
    {read? : List (String × V) → Option A} {slots : List (Slot A)}
    (hread : Gathers (read? ms) slots) : Gathers (k.section? names v >>= read?) slots := by
  rw [h.section?]
  exact hread

/-! ## Sections -/

attribute [ext] ApplicationSettings ServerSettings DatabaseSettings TokenSettings ConsoleSettings
  Rotation FileSettings LoggerSettings TriggerSettings CronSettings
  BackoffSettings ClientSettings Settings

namespace ApplicationSettings

def parts (k : DocumentKind V) : List (Part V ApplicationSettings) :=
  [.leaf "name" k.str? (·.name), .leaf "version" k.str? (·.version)]

theorem reads_leaves : ReadsLeaves k (read? k) (Part.leavesOf (parts k)) {} :=
  reads_section (List.cons_ne_nil _ _)
    (fun h => .section h <| .bind 0 rfl fun _ hname => .bind 1 rfl fun _ hversion =>
      .done ⟨hname, hversion⟩)
    (fun ⟨hname, hversion⟩ => ApplicationSettings.ext hname hversion)
    ⟨reads_leaf _ _, reads_leaf _ _⟩

end ApplicationSettings

namespace ServerSettings

def parts (k : DocumentKind V) : List (Part V ServerSettings) :=
  [.leaf "host" k.str? (·.host), .leaf "port" (k.nat? Text.u16Max) (·.port),
    .leaf "request_timeout" (k.nat? Text.u64Max) (·.requestTimeout)]

theorem reads_leaves : ReadsLeaves k (read? k) (Part.leavesOf (parts k)) {} :=
  reads_section (List.cons_ne_nil _ _)
    (fun h => .section h <| .bind 0 rfl fun _ hhost => .bind 1 rfl fun _ hport =>
      .bind 2 rfl fun _ hrequestTimeout => .done ⟨hhost, hport, hrequestTimeout⟩)
    (fun ⟨hhost, hport, hrequestTimeout⟩ => ServerSettings.ext hhost hport hrequestTimeout)
    ⟨reads_leaf _ _, reads_leaf _ _, reads_leaf _ _⟩

end ServerSettings

namespace DatabaseSettings

def parts (k : DocumentKind V) : List (Part V DatabaseSettings) :=
  [.leaf "url" k.str? (·.url), .leaf "max_connections" (k.nat? Text.u32Max) (·.maxConnections),
    .leaf "min_connections" (k.nat? Text.u32Max) (·.minConnections),
    .leaf "connection_timeout" (k.nat? Text.u64Max) (·.connectionTimeout),
    .leaf "auto_migrate" k.bool? (·.autoMigrate)]

theorem reads_leaves : ReadsLeaves k (read? k) (Part.leavesOf (parts k)) {} :=
  reads_section (List.cons_ne_nil _ _)
    (fun h => .section h <| .bind 0 rfl fun _ hurl => .bind 1 rfl fun _ hmaxConnections =>
      .bind 2 rfl fun _ hminConnections => .bind 3 rfl fun _ hconnectionTimeout =>
      .bind 4 rfl fun _ hautoMigrate =>
      .done ⟨hurl, hmaxConnections, hminConnections, hconnectionTimeout, hautoMigrate⟩)
    (fun ⟨hurl, hmaxConnections, hminConnections, hconnectionTimeout, hautoMigrate⟩ =>
      DatabaseSettings.ext hurl hmaxConnections hminConnections hconnectionTimeout hautoMigrate)
    ⟨reads_leaf _ _, reads_leaf _ _, reads_leaf _ _, reads_leaf _ _, reads_leaf _ _⟩

end DatabaseSettings

namespace TokenSettings

def parts (k : DocumentKind V) : List (Part V TokenSettings) :=
  [.leaf "secret" k.str? (·.secret),
    .leaf "access_token_expiration" (k.int? Text.i64Min Text.i64Max) (·.accessExpiration),
    .leaf "refresh_token_expiration" (k.int? Text.i64Min Text.i64Max) (·.refreshExpiration)]

theorem reads_leaves : ReadsLeaves k (read? k) (Part.leavesOf (parts k)) {} :=
  reads_section (List.cons_ne_nil _ _)
    (fun h => .section h <| .bind 0 rfl fun _ hsecret => .bind 1 rfl fun _ haccessExpiration =>
      .bind 2 rfl fun _ hrefreshExpiration =>
      .done ⟨hsecret, haccessExpiration, hrefreshExpiration⟩)
    (fun ⟨hsecret, haccessExpiration, hrefreshExpiration⟩ =>
      TokenSettings.ext hsecret haccessExpiration hrefreshExpiration)
    ⟨reads_leaf _ _, reads_leaf _ _, reads_leaf _ _⟩

end TokenSettings

namespace ConsoleSettings

def parts (k : DocumentKind V) : List (Part V ConsoleSettings) :=
  [.leaf "enabled" k.bool? (·.enabled), .leaf "colored" k.bool? (·.colored)]

theorem reads_leaves : ReadsLeaves k (read? k) (Part.leavesOf (parts k)) {} :=
  reads_section (List.cons_ne_nil _ _)
    (fun h => .section h <| .bind 0 rfl fun _ henabled => .bind 1 rfl fun _ hcolored =>
      .done ⟨henabled, hcolored⟩)
    (fun ⟨henabled, hcolored⟩ => ConsoleSettings.ext henabled hcolored)
    ⟨reads_leaf _ _, reads_leaf _ _⟩

end ConsoleSettings

namespace Rotation

def parts (k : DocumentKind V) : List (Part V Rotation) :=
  [.leaf "enabled" k.bool? (·.enabled), .leaf "max_size" (k.nat? Text.u64Max) (·.maxSize),
    .leaf "max_files" (k.nat? Text.u64Max) (·.maxFiles), .leaf "compress" k.bool? (·.compress)]

theorem reads_leaves : ReadsLeaves k (read? k) (Part.leavesOf (parts k)) {} :=
  reads_section (List.cons_ne_nil _ _)
    (fun h => .section h <| .bind 0 rfl fun _ henabled => .bind 1 rfl fun _ hmaxSize =>
      .bind 2 rfl fun _ hmaxFiles => .bind 3 rfl fun _ hcompress =>
      .done ⟨henabled, hmaxSize, hmaxFiles, hcompress⟩)
    (fun ⟨henabled, hmaxSize, hmaxFiles, hcompress⟩ =>
      Rotation.ext henabled hmaxSize hmaxFiles hcompress)
    ⟨reads_leaf _ _, reads_leaf _ _, reads_leaf _ _, reads_leaf _ _⟩

end Rotation

namespace FileSettings

def parts (k : DocumentKind V) : List (Part V FileSettings) :=
  [.leaf "enabled" k.bool? (·.enabled), .leaf "path" k.str? (·.path),
    .leaf "append" k.bool? (·.append), .leaf "format" k.str? (·.format),
    .branch "rotation" (Rotation.read? k) (Rotation.parts k) (·.rotation)]

theorem reads_leaves : ReadsLeaves k (read? k) (Part.leavesOf (parts k)) {} :=
  reads_section (List.cons_ne_nil _ _)
    (fun h => .section h <| .bind 0 rfl fun _ henabled => .bind 1 rfl fun _ hpath =>
      .bind 2 rfl fun _ happend => .bind 3 rfl fun _ hformat => .bind 4 rfl fun _ hrotation =>
      .done ⟨henabled, hpath, happend, hformat, hrotation⟩)
    (fun ⟨henabled, hpath, happend, hformat, hrotation⟩ =>
      FileSettings.ext henabled hpath happend hformat hrotation)
    ⟨reads_leaf _ _, reads_leaf _ _, reads_leaf _ _, reads_leaf _ _, Rotation.reads_leaves⟩

end FileSettings

namespace LoggerSettings

def parts (k : DocumentKind V) : List (Part V LoggerSettings) :=
  [.leaf "level" k.str? (·.level),
    .branch "console" (ConsoleSettings.read? k) (ConsoleSettings.parts k) (·.console),
    .branch "file" (FileSettings.read? k) (FileSettings.parts k) (·.file)]

theorem reads_leaves : ReadsLeaves k (read? k) (Part.leavesOf (parts k)) {} :=
  reads_section (List.cons_ne_nil _ _)
    (fun h => .section h <| .bind 0 rfl fun _ hlevel => .bind 1 rfl fun _ hconsole =>
      .bind 2 rfl fun _ hfile => .done ⟨hlevel, hconsole, hfile⟩)
    (fun ⟨hlevel, hconsole, hfile⟩ => LoggerSettings.ext hlevel hconsole hfile)
    ⟨reads_leaf _ _, ConsoleSettings.reads_leaves, FileSettings.reads_leaves⟩

end LoggerSettings

namespace TriggerSettings

def parts (k : DocumentKind V) : List (Part V TriggerSettings) :=
  [.leaf "enabled" k.bool? (·.enabled), .leaf "schedule" k.str? (·.schedule)]

theorem reads_leaves : ReadsLeaves k (read? k) (Part.leavesOf (parts k)) {} :=
  reads_section (List.cons_ne_nil _ _)
    (fun h => .section h <| .bind 0 rfl fun _ henabled => .bind 1 rfl fun _ hschedule =>
      .done ⟨henabled, hschedule⟩)
    (fun ⟨henabled, hschedule⟩ => TriggerSettings.ext henabled hschedule)
    ⟨reads_leaf _ _, reads_leaf _ _⟩

end TriggerSettings

namespace CronSettings

def parts (k : DocumentKind V) : List (Part V CronSettings) :=
  [.leaf "store" (fun v => (k.choice? v).bind StoreKind.ofName?) (·.store),
    .leaf "batch_limit" (k.int? Text.i64Min Text.i64Max) (·.batchLimit),
    .leaf "seed_on_startup" k.bool? (·.seedOnStartup),
    .branch "trigger" (TriggerSettings.read? k) (TriggerSettings.parts k) (·.trigger)]

theorem reads_leaves : ReadsLeaves k (read? k) (Part.leavesOf (parts k)) {} :=
  reads_section (List.cons_ne_nil _ _)
    (fun h => .section h <| .bind 0 rfl fun _ hstore => .bind 1 rfl fun _ hbatchLimit =>
      .bind 2 rfl fun _ hseedOnStartup => .bind 3 rfl fun _ htrigger =>
      .done ⟨hstore, hbatchLimit, hseedOnStartup, htrigger⟩)
    (fun ⟨hstore, hbatchLimit, hseedOnStartup, htrigger⟩ =>
      CronSettings.ext hstore hbatchLimit hseedOnStartup htrigger)
    ⟨reads_leaf _ _, reads_leaf _ _, reads_leaf _ _, TriggerSettings.reads_leaves⟩

end CronSettings

namespace BackoffSettings

def parts (k : DocumentKind V) : List (Part V BackoffSettings) :=
  [.leaf "base_delay_ms" (k.nat? Text.u64Max) (·.baseDelay),
    .leaf "max_delay_ms" (k.nat? Text.u64Max) (·.maxDelay),
    .leaf "jitter_ms" (k.nat? Text.u64Max) (·.jitter),
    .leaf "extended_threshold" (k.nat? Text.u32Max) (·.extendedThreshold),
    .leaf "extended_max_ms" (k.nat? Text.u64Max) (·.extendedMax)]

theorem reads_leaves : ReadsLeaves k (read? k) (Part.leavesOf (parts k)) {} :=
  reads_section (List.cons_ne_nil _ _)
    (fun h => .section h <| .bind 0 rfl fun _ hbaseDelay => .bind 1 rfl fun _ hmaxDelay =>
      .bind 2 rfl fun _ hjitter => .bind 3 rfl fun _ hextendedThreshold =>
      .bind 4 rfl fun _ hextendedMax =>
      .done ⟨hbaseDelay, hmaxDelay, hjitter, hextendedThreshold, hextendedMax⟩)
    (fun ⟨hbaseDelay, hmaxDelay, hjitter, hextendedThreshold, hextendedMax⟩ =>
      BackoffSettings.ext hbaseDelay hmaxDelay hjitter hextendedThreshold hextendedMax)
    ⟨reads_leaf _ _, reads_leaf _ _, reads_leaf _ _, reads_leaf _ _, reads_leaf _ _⟩

end BackoffSettings

namespace ClientSettings

def parts (k : DocumentKind V) : List (Part V ClientSettings) :=
  [.leaf "base_url" k.str? (·.baseUrl),
    .leaf "request_timeout" (k.nat? Text.u64Max) (·.requestTimeout),
    .branch "backoff" (BackoffSettings.read? k) (BackoffSettings.parts k) (·.backoff)]

theorem reads_leaves : ReadsLeaves k (read? k) (Part.leavesOf (parts k)) {} :=
  reads_section (List.cons_ne_nil _ _)
    (fun h => .section h <| .bind 0 rfl fun _ hbaseUrl => .bind 1 rfl fun _ hrequestTimeout =>
      .bind 2 rfl fun _ hbackoff => .done ⟨hbaseUrl, hrequestTimeout, hbackoff⟩)
    (fun ⟨hbaseUrl, hrequestTimeout, hbackoff⟩ =>
      ClientSettings.ext hbaseUrl hrequestTimeout hbackoff)
    ⟨reads_leaf _ _, reads_leaf _ _, BackoffSettings.reads_leaves⟩

end ClientSettings

namespace Settings

def parts (k : DocumentKind V) : List (Part V Settings) :=
  [.branch "application" (ApplicationSettings.read? k) (ApplicationSettings.parts k)
      (·.application),
    .branch "server" (ServerSettings.read? k) (ServerSettings.parts k) (·.server),
    .branch "database" (DatabaseSettings.read? k) (DatabaseSettings.parts k) (·.database),
    .branch "jwt" (TokenSettings.read? k) (TokenSettings.parts k) (·.jwt),
    .branch "logger" (LoggerSettings.read? k) (LoggerSettings.parts k) (·.logger),
    .branch "cron" (CronSettings.read? k) (CronSettings.parts k) (·.cron),
    .branch "client" (ClientSettings.read? k) (ClientSettings.parts k) (·.client)]

theorem reads_leaves : ReadsLeaves k (read? k) (Part.leavesOf (parts k)) {} :=
  reads_section (List.cons_ne_nil _ _)
    (fun h => .section h <| .bind 0 rfl fun _ happlication => .bind 1 rfl fun _ hserver =>
      .bind 2 rfl fun _ hdatabase => .bind 3 rfl fun _ hjwt => .bind 4 rfl fun _ hlogger =>
      .bind 5 rfl fun _ hcron => .bind 6 rfl fun _ hclient =>
      .done ⟨happlication, hserver, hdatabase, hjwt, hlogger, hcron, hclient⟩)
    (fun ⟨happlication, hserver, hdatabase, hjwt, hlogger, hcron, hclient⟩ =>
      Settings.ext happlication hserver hdatabase hjwt hlogger hcron hclient)
    ⟨ApplicationSettings.reads_leaves, ServerSettings.reads_leaves, DatabaseSettings.reads_leaves,
      TokenSettings.reads_leaves, LoggerSettings.reads_leaves, CronSettings.reads_leaves,
      ClientSettings.reads_leaves⟩

end Settings

/-- All single settings. -/
def Settings.leaves (k : DocumentKind V) : List (Leaf V Settings) := Part.leavesOf (parts k)

end Cadence
