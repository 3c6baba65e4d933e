import Cadence.CommandLine.Run
import Cadence.Proofs.Settings.Rules
import Cadence.Proofs.Token.Validation

/-!
# Merging with the command line

The command line changes four fields of the settings at most, and a command gets only settings whose
sections are in order as far as it uses them.
-/

namespace Cadence

/-! ## Sections -/

namespace Settings

/-- A section that has rules. -/
inductive Section
  | server | database | jwt | logger | cron | client
  deriving DecidableEq, Repr

namespace Section

def validate (s : Settings) : Section → Validation
  | server => s.server.validate
  | database => s.database.validate
  | jwt => s.jwt.validate
  | logger => s.logger.validate
  | cron => s.cron.validate
  | client => s.client.validate

/-- The section is the same in both settings. -/
def Agrees (s t : Settings) : Section → Prop
  | server => s.server = t.server
  | database => s.database = t.database
  | jwt => s.jwt = t.jwt
  | logger => s.logger = t.logger
  | cron => s.cron = t.cron
  | client => s.client = t.client

end Section

/-- The database is opened only where the job table is kept in it. -/
def storeSections (s : Settings) : List Section := if s.cron.store = .postgres then [.database] else []

/-- The sections that are checked with the whole, in their order. -/
def checks (s : Settings) : List Section := .server :: s.storeSections ++ [.logger, .cron, .client]

theorem validate_eq_ok_iff {s : Settings} :
    s.validate = .ok () ↔ ∀ sec ∈ s.checks, sec.validate s = .ok () := by
  unfold validate checks storeSections
  by_cases hstore : s.cron.store = .postgres <;>
    simp [hstore, Validation.bind_eq_ok_iff, Section.validate]

end Settings

namespace CommandLine

open Settings

namespace Command

/-- The sections that a command uses. -/
def uses (s : Settings) : Option Command → List Section
  | none | some (serve _) => [.server, .jwt, .cron, .logger] ++ s.storeSections
  | some (migrate _) => [.database]
  | some poll | some seed => .cron :: s.storeSections
  | some (token _) => [.jwt]
  | some (trigger _) => [.client]

/-- The sections that are checked for a command. -/
def checks (s : Settings) : Option Command → List Section
  | none | some (serve _) => s.checks ++ [.jwt]
  | some (migrate _) => s.checks ++ [.database]
  | some poll | some seed => s.checks
  | some (token _) => [.logger, .jwt]
  | some (trigger _) => [.logger, .client]

/-! ## What is checked -/

theorem validate_eq_ok_iff {s : Settings} {command : Option Command} :
    validate s command = .ok () ↔ ∀ sec ∈ checks s command, sec.validate s = .ok () := by
  rcases command with _ | (o | o | _ | _ | p | o)
  case some.migrate =>
    simp only [validate, checks, Validation.bind_eq_ok_iff, Settings.validate_eq_ok_iff,
      List.forall_mem_append, List.forall_mem_singleton]
    by_cases hstore : s.cron.store = .postgres
    · simp +contextual [hstore, Settings.checks, storeSections, Section.validate, pure, Except.pure]
    · simp [hstore, Section.validate]
  all_goals
    simp [validate, checks, Validation.bind_eq_ok_iff, Settings.validate_eq_ok_iff,
      Section.validate, or_imp, forall_and]

theorem uses_subset_checks (s : Settings) (command : Option Command) :
    .logger :: uses s command ⊆ checks s command := by
  rcases command with _ | (o | o | _ | _ | p | o) <;> intro sec <;>
    simp [uses, checks, Settings.checks] <;> grind

end Command

/-! ## What is used -/

/-- Both courses come to the same: the same end, or a service that starts in the same way. -/
inductive Course.Alike : Course → Course → Prop
  | same (c : Course) : Alike c c
  | serving {s t : Settings} (e : Environment) (hserver : s.server = t.server)
      (hlogger : s.logger = t.logger) (hstart : Server.start s = Server.start t) :
      Alike (.serving s e) (.serving t e)

variable {σ : Type} {s t : Settings}

theorem dryRun_congr (hserver : s.server = t.server) (hcron : s.cron = t.cron) (e : Environment) :
    dryRun s e = dryRun t e := by
  unfold dryRun summary
  rw [hserver, hcron]

theorem start_congr (hjwt : s.jwt = t.jwt) (hcron : s.cron = t.cron) :
    Server.start s = Server.start t := by
  unfold Server.start
  rw [hjwt, hcron]

theorem printScript_congr {α : Type} (hcron : s.cron = t.cron) (now : Instant)
    (script : StoreScript (Except ServiceError α)) (write : α → Json) :
    printScript s now script write = printScript t now script write := by
  unfold printScript
  rw [hcron]

theorem migrate_congr (hdatabase : s.database = t.database) (o : MigrateOptions) :
    migrate s o = migrate t o := by
  unfold migrate
  rw [hdatabase]

/-- Settings that agree on the sections that a command uses take it to the same end. -/
theorem execute_alike [HostNames] (c : Circumstances σ) (e : Environment) {command : Option Command}
    (h : ∀ sec ∈ Command.uses s command, sec.Agrees s t) :
    (execute c s e command).Alike (execute c t e command) := by
  have hserving (h : ∀ sec ∈ [.server, .jwt, .cron, .logger] ++ s.storeSections, sec.Agrees s t) :
      (Course.serving s e).Alike (.serving t e) :=
    .serving e (h .server (by simp)) (h .logger (by simp))
      (start_congr (h .jwt (by simp)) (h .cron (by simp)))
  rcases command with _ | (o | o | _ | _ | p | o) <;> simp only [execute]
  case none => exact hserving h
  case some.serve =>
    by_cases hdry : o.dryRun = true
    · have hlines : dryRun s e = dryRun t e :=
        dryRun_congr (h .server (by simp [Command.uses])) (h .cron (by simp [Command.uses])) e
      rw [if_pos hdry, if_pos hdry, hlines]
      exact .same _
    · rw [if_neg hdry, if_neg hdry]
      exact hserving h
  case some.migrate =>
    rw [migrate_congr (h .database (by simp [Command.uses]))]
    exact .same _
  case some.poll =>
    have hcron : s.cron = t.cron := h .cron (by simp [Command.uses])
    rw [hcron, printScript_congr hcron]
    exact .same _
  case some.seed =>
    have hcron : s.cron = t.cron := h .cron (by simp [Command.uses])
    rw [printScript_congr hcron]
    exact .same _
  case some.token =>
    have hjwt : s.jwt = t.jwt := h .jwt (by simp [Command.uses])
    rw [hjwt]
    exact .same _
  case some.trigger =>
    have hclient : s.client = t.client := h .client (by simp [Command.uses])
    rw [hclient]
    exact .same _

/-! ## What changes -/

namespace Invocation

variable (i : Invocation)

/-- The options of a command that serves; for any other command none is given. -/
def serveOptions : ServeOptions :=
  match i.command with
  | some (.serve o) => o
  | _ => {}

/-- The service that a trigger names. -/
def url? : Option String :=
  match i.command with
  | some (.trigger o) => o.url
  | _ => none

/-- The level that is asked for: by the command, or else by the general options. -/
def level? : Option LogLevel :=
  i.serveOptions.logLevel <|>
    if i.verbose then some .debug else if i.quiet then some .error else none

/-- The settings with the four fields that can be asked for. -/
def asked (s : Settings) : Settings :=
  { s with
    logger := { s.logger with level := (i.level?.map LogLevel.name).getD s.logger.level }
    server := { s.server with
      host := i.serveOptions.host.getD s.server.host
      port := i.serveOptions.port.getD s.server.port }
    client := { s.client with baseUrl := i.url?.getD s.client.baseUrl } }

theorem override_eq_asked (s : Settings) : i.override s = i.asked s := by
  obtain ⟨command, config, environment, verbose, quiet⟩ := i
  rcases command with _ | (⟨host, port, level, dryRun⟩ | o | _ | _ | p | o)
  case some.serve =>
    cases level <;> cases verbose <;> cases quiet <;> rfl
  all_goals cases verbose <;> cases quiet <;> rfl

theorem asked_asked (s : Settings) : i.asked (i.asked s) = i.asked s := by
  unfold asked
  cases i.level? <;> cases i.serveOptions.host <;> cases i.serveOptions.port <;> cases i.url? <;> rfl

theorem merge_eq_map (s : Settings) :
    i.merge s = (Command.validate (i.asked s) i.command).map fun _ => i.asked s := by
  simp only [merge, override_eq_asked]
  cases Command.validate (i.asked s) i.command <;> rfl

theorem merge_eq_ok_iff {s s' : Settings} :
    i.merge s = .ok s' ↔ Command.validate (i.asked s) i.command = .ok () ∧ s' = i.asked s := by
  rw [merge_eq_map]
  cases Command.validate (i.asked s) i.command <;> simp [Except.map, eq_comm]

end Invocation

theorem in_order_of_merge {i : Invocation} (h : i.merge s = .ok t) :
    ∀ sec ∈ .logger :: Command.uses t i.command, sec.validate t = .ok () := by
  obtain ⟨hvalid, rfl⟩ := i.merge_eq_ok_iff.mp h
  intro sec hsec
  exact Command.validate_eq_ok_iff.mp hvalid sec (Command.uses_subset_checks _ _ hsec)

theorem of_mapError_eq_ok {ε ε' α : Type} {x : Except ε α} {f : ε → ε'} {a : α}
    (h : x.mapError f = .ok a) : x = .ok a := by
  cases x <;> simp_all [Except.mapError]

/-- The settings of a run are in order for its command. -/
theorem in_order_of_settingsFor [HostNames] [FilterRules] {c : Circumstances σ} {i : Invocation}
    (h : settingsFor c i = .ok s) :
    ∀ sec ∈ .logger :: Command.uses s i.command, sec.validate s = .ok () := by
  unfold settingsFor at h
  obtain ⟨loader, -, h⟩ := Token.bind_eq_ok.mp h
  obtain ⟨base, -, h⟩ := Token.bind_eq_ok.mp h
  obtain ⟨merged, hmerge, h⟩ := Token.bind_eq_ok.mp h
  obtain ⟨_, -, h⟩ := Token.bind_eq_ok.mp h
  cases h
  exact in_order_of_merge (of_mapError_eq_ok hmerge)

/-- A merge succeeds exactly if the settings with what is asked for are in order for the command,
and these are its result: of all fields only the level, the host, the port and the base URL change,
and those only if asked for. It is the same once more. Each section that the command uses is in
order then, and no other section counts for the command. -/
theorem merge_changes_what_is_asked [HostNames] (i : Invocation) (s : Settings) :
    ((∃ s', i.merge s = .ok s') ↔ Command.validate (i.asked s) i.command = .ok ()) ∧
    ∀ s', i.merge s = .ok s' →
      s' = i.asked s ∧ i.merge s' = .ok s' ∧
      (∀ sec ∈ .logger :: Command.uses s' i.command, sec.validate s' = .ok ()) ∧
      ∀ {σ : Type} (c : Circumstances σ) (e : Environment) (t : Settings),
        (∀ sec ∈ Command.uses s' i.command, sec.Agrees s' t) →
        (execute c s' e i.command).Alike (execute c t e i.command) := by
  refine ⟨by simp [Invocation.merge_eq_ok_iff], fun s' hmerge => ?_⟩
  obtain ⟨hvalid, rfl⟩ := i.merge_eq_ok_iff.mp hmerge
  refine ⟨rfl, ?_, in_order_of_merge hmerge, fun c e t => execute_alike c e⟩
  rw [i.merge_eq_ok_iff, Invocation.asked_asked]
  exact ⟨hvalid, rfl⟩

theorem merge_changes_what_is_asked_of_service :
    let i : Invocation :=
      { quiet := true, command := some (.serve { port := some 8080, logLevel := some .trace }) }
    let s : Settings :=
      { jwt := { secret := "an-adequately-long-test-secret-value" }, cron := { store := .memory } }
    let s' : Settings :=
      { s with server := { port := 8080 }, logger := { level := "trace" } }
    i.merge s = .ok s' ∧ i.merge s' = .ok s' ∧ s'.jwt.validate = .ok () := by
  intro i s s'
  have hasked : i.asked s = s' := rfl
  obtain ⟨hiff, hmerged⟩ := @merge_changes_what_is_asked .plain i s
  obtain ⟨t, hmerge⟩ := hiff.mpr (by decide +kernel)
  obtain ⟨ht, hagain, horder, -⟩ := hmerged t hmerge
  rw [hasked] at ht
  subst ht
  exact ⟨hmerge, hagain, horder .jwt (by decide)⟩

end CommandLine

end Cadence
