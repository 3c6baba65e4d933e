import Cadence.Log.Config
import Cadence.Proofs.Settings.Rules

/-!
# Setting up the logger

The settings of the logger have rules, and so has the configuration that is made from them. Both
want the same of the outputs. The format is another matter: the settings only mind it where a file
is written, and a configuration cannot be made without it.
-/

namespace Cadence

/-! ## Rules of the configuration -/

theorem LogError.rule_eq_ok_iff {broken : Bool} {reason : String} :
    rule broken reason = .ok () ↔ broken = false := by
  unfold rule
  cases broken <;> simp

theorem LogError.rule_bind_eq_ok_iff {broken : Bool} {reason : String}
    {rest : Unit → Except LogError Unit} :
    (rule broken reason >>= rest) = .ok () ↔ broken = false ∧ rest () = .ok () := by
  unfold rule
  cases broken <;> simp [bind, Except.bind]

theorem Rotation.validate_eq_ok_iff {r : Rotation} :
    r.validate = .ok () ↔ (r.enabled = true → 0 < r.maxSize ∧ 0 < r.maxFiles) := by
  unfold validate
  rw [LogError.rule_bind_eq_ok_iff, LogError.rule_eq_ok_iff]
  cases r.enabled <;> simp [Nat.pos_iff_ne_zero]

theorem LogFileConfig.validate_eq_ok_iff {c : LogFileConfig} :
    c.validate = .ok () ↔
      (c.enabled = true → c.path.isEmpty = false) ∧
        (c.enabled = true → c.rotation.enabled = true →
          0 < c.rotation.maxSize ∧ 0 < c.rotation.maxFiles) := by
  unfold validate
  split
  · rename_i henabled
    rw [LogError.rule_bind_eq_ok_iff, Rotation.validate_eq_ok_iff]
    simp [henabled]
  · rename_i henabled
    simp [henabled, pure, Except.pure]

theorem LoggerConfig.validate_eq_ok_iff [FilterRules] {c : LoggerConfig} :
    c.validate = .ok () ↔
      LogFilter.check c.level = .ok () ∧
        OutputsInOrder c.console c.file.enabled c.file.path c.file.rotation := by
  have houtput : (!c.console.enabled && !c.file.enabled) = false ↔
      c.console.enabled = true ∨ c.file.enabled = true := by
    cases c.console.enabled <;> simp
  unfold validate
  cases LogFilter.check c.level with
  | error f => simp [bind, Except.bind, throw, throwThe, MonadExceptOf.throw]
  | ok _ =>
    cases hfile : c.file.validate with
    | error e =>
      have hbroken : ¬ c.file.validate = .ok () := by simp [hfile]
      rw [LogFileConfig.validate_eq_ok_iff] at hbroken
      simp only [bind, Except.bind, reduceCtorEq, true_and, false_iff]
      exact fun h => hbroken ⟨h.path, h.rotation⟩
    | ok _ =>
      obtain ⟨hpath, hrotation⟩ := LogFileConfig.validate_eq_ok_iff.mp hfile
      simp only [bind, Except.bind, LogError.rule_eq_ok_iff, houtput, true_and]
      exact ⟨fun h => ⟨hpath, hrotation, h⟩, fun h => h.output⟩

/-! ## From settings to a configuration -/

/-- The text is one of the three formats, in any case. -/
def LogFormat.IsNamed (s : String) : Prop := LoggerSettings.formats.contains (Text.lower s) = true

theorem LogFormat.isNamed_iff {s : String} :
    IsNamed s ↔ ∃ f, ofName? (Text.lower s) = some f := by
  unfold IsNamed
  generalize Text.lower s = name
  simp only [LoggerSettings.formats, List.contains_eq_mem, List.mem_cons, List.not_mem_nil, or_false,
    decide_eq_true_eq]
  constructor
  · rintro (rfl | rfl | rfl) <;> simp [ofName?]
  · rintro ⟨f, hf⟩
    unfold ofName? at hf
    split at hf <;> simp_all

/-- The configuration has the settings' level, outputs, path, append flag, format and limits. -/
structure LoggerConfig.Carries (c : LoggerConfig) (s : LoggerSettings) : Prop where
  level : c.level = s.level
  console : c.console = s.console
  enabled : c.file.enabled = s.file.enabled
  path : c.file.path = s.file.path
  append : c.file.append = s.file.append
  format : c.file.format.name = Text.lower s.file.format
  rotation : c.file.rotation = s.file.rotation

theorem LogFormat.name_of_ofName? {name : String} {f : LogFormat} (h : ofName? name = some f) :
    f.name = name := by
  unfold ofName? at h
  split at h <;> cases h <;> rfl

namespace LoggerSettings

section Rules

variable [FilterRules] {s : LoggerSettings} {c : LoggerConfig}

theorem toConfig_of_format {f : LogFormat}
    (h : LogFormat.ofName? (Text.lower s.file.format) = some f) :
    ∃ c : LoggerConfig, c.Carries s ∧ ∀ c', s.toConfig = .ok c' ↔ c.validate = .ok () ∧ c = c' := by
  let c : LoggerConfig :=
    ⟨s.level, s.console, ⟨s.file.enabled, s.file.path, s.file.append, f, s.file.rotation⟩⟩
  refine ⟨c, ⟨rfl, rfl, rfl, rfl, rfl, LogFormat.name_of_ofName? h, rfl⟩, fun c' => ?_⟩
  have hconfig : s.toConfig =
      (c.validate.mapError fun e => .validation "logger" e.message).map fun _ => c := by
    unfold toConfig LogFormat.parse
    rw [h]
    change (c.validate.mapError fun e => ConfigError.validation "logger" e.message).bind
      (fun _ => .ok c) = _
    cases c.validate <;> rfl
  rw [hconfig]
  cases c.validate with
  | error e => exact ⟨nofun, fun hvalid => nomatch hvalid.1⟩
  | ok _ => exact ⟨fun hc => ⟨rfl, Except.ok.inj hc⟩, fun hc => congrArg Except.ok hc.2⟩

theorem toConfig_of_no_format (h : ¬ LogFormat.IsNamed s.file.format) :
    s.toConfig = .error (.validation "logger.file.format"
      (LogError.message (.config
        s!"Invalid log format '{s.file.format}'. Valid formats are: full, compact, json"))) := by
  rw [LogFormat.isNamed_iff, not_exists] at h
  unfold toConfig LogFormat.parse
  cases hname : LogFormat.ofName? (Text.lower s.file.format) with
  | some f => exact absurd hname (h f)
  | none => rfl

theorem toConfig_eq_ok_iff :
    (∃ c, s.toConfig = .ok c) ↔
      LogFormat.IsNamed s.file.format ∧ LogFilter.check s.level = .ok () ∧
        OutputsInOrder s.console s.file.enabled s.file.path s.file.rotation := by
  by_cases hformat : LogFormat.IsNamed s.file.format
  · obtain ⟨f, hf⟩ := LogFormat.isNamed_iff.mp hformat
    obtain ⟨c, hcarries, hconfig⟩ := toConfig_of_format hf
    have hrules := LoggerConfig.validate_eq_ok_iff (c := c)
    rw [hcarries.level, hcarries.console, hcarries.enabled, hcarries.path,
      hcarries.rotation] at hrules
    simp [hconfig, hformat, hrules]
  · rw [toConfig_of_no_format hformat]
    simp [hformat]

theorem carries_of_toConfig (h : s.toConfig = .ok c) : c.validate = .ok () ∧ c.Carries s := by
  have hformat := (toConfig_eq_ok_iff.mp ⟨c, h⟩).1
  obtain ⟨f, hf⟩ := LogFormat.isNamed_iff.mp hformat
  obtain ⟨c', hcarries, hconfig⟩ := toConfig_of_format hf
  obtain ⟨hvalid, rfl⟩ := (hconfig c).mp h
  exact ⟨hvalid, hcarries⟩

/-- Settings with a level that the logger knows are in order, and a format is named even if no file
is written, exactly if a configuration is made of them. The configuration is in order then and
carries all that the settings say, and where there is none for settings in order the format is to
blame. -/
theorem config_of_valid_settings (hlevel : Text.isBlankText s.level = false)
    (hfilter : LogFilter.check s.level = .ok ()) :
    ((∃ c, s.toConfig = .ok c) ↔
        s.validate = .ok () ∧ (s.file.enabled = false → LogFormat.IsNamed s.file.format)) ∧
      (∀ c, s.toConfig = .ok c → c.validate = .ok () ∧ c.Carries s) ∧
      (s.validate = .ok () → ∀ e, s.toConfig = .error e →
        s.file.enabled = false ∧ e.field? = some "logger.file.format") := by
  have hrules : s.validate = .ok () ↔
      OutputsInOrder s.console s.file.enabled s.file.path s.file.rotation ∧
        (s.file.enabled = true → LogFormat.IsNamed s.file.format) := by
    simp [validate_eq_ok_iff, hlevel, LogFormat.IsNamed]
  rw [toConfig_eq_ok_iff, hrules]
  refine ⟨?_, fun c => carries_of_toConfig, ?_⟩
  · cases s.file.enabled <;> simp [hfilter, and_comm]
  · rintro ⟨houtputs, hfile⟩ e he
    have hformat : ¬ LogFormat.IsNamed s.file.format := by
      intro hformat
      obtain ⟨c, hc⟩ := toConfig_eq_ok_iff.mpr ⟨hformat, hfilter, houtputs⟩
      simp [hc] at he
    rw [toConfig_of_no_format hformat] at he
    cases he
    exact ⟨by simpa using mt hfile hformat, rfl⟩

end Rules

theorem config_of_small_files :
    let _ : FilterRules := .plain
    let s : LoggerSettings := {
      level := "warn,crm_cron=debug"
      file := { enabled := true, format := "Compact", rotation := { maxSize := 1, maxFiles := 1 } } }
    Text.isBlankText s.level = false ∧ LogFilter.check s.level = .ok () ∧ s.validate = .ok () ∧
      ∃ c, s.toConfig = .ok c ∧ c.Carries s := by
  intro _ s
  have hlevel : Text.isBlankText s.level = false := by decide +kernel
  have hpasses : (LogFilter.check s.level).isOk = true := by decide +kernel
  have hfilter : LogFilter.check s.level = .ok () := by
    cases hcheck : LogFilter.check s.level with
    | error f =>
      rw [hcheck] at hpasses
      cases hpasses
    | ok _ => rfl
  have hformat : LogFormat.IsNamed s.file.format := by
    unfold LogFormat.IsNamed
    decide +kernel
  have hvalid : s.validate = .ok () :=
    validate_eq_ok_iff.mpr ⟨hlevel, ⟨by simp [s, Default.logPath], by simp [s], by simp [s]⟩,
      fun _ => hformat⟩
  obtain ⟨hconfig, hcarries, -⟩ := config_of_valid_settings hlevel hfilter
  obtain ⟨c, hc⟩ := hconfig.mpr ⟨hvalid, fun _ => hformat⟩
  exact ⟨hlevel, hfilter, hvalid, c, hc, (hcarries c hc).2⟩

/-- Nothing is written to a file, and its format is unknown: the settings are in order, and there is
no configuration for them. -/
theorem valid_settings_without_config :
    let _ : FilterRules := .plain
    let s : LoggerSettings := { file := { enabled := false, format := "xml" } }
    Text.isBlankText s.level = false ∧ LogFilter.check s.level = .ok () ∧ s.validate = .ok () ∧
      s.toConfig = .error (.validation "logger.file.format"
        "Configuration error: Invalid log format 'xml'. Valid formats are: full, compact, json") := by
  refine ⟨by decide +kernel, by rfl, by rfl, ?_⟩
  have hformat : ¬ LogFormat.IsNamed "xml" := by
    unfold LogFormat.IsNamed
    decide +kernel
  exact @toConfig_of_no_format .plain _ hformat

end LoggerSettings

end Cadence
