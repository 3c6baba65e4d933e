import Cadence.Settings.Validate

/-!
# Settings in order

A section is in order exactly if none of its rules is broken.
-/

namespace Cadence

theorem Validation.rule_eq_ok_iff {broken : Bool} {field reason : String} :
    rule broken field reason = .ok () ↔ broken = false := by
  unfold rule
  cases broken <;> simp

theorem Validation.bind_eq_ok_iff {first : Validation} {rest : Unit → Validation} :
    (first >>= rest) = .ok () ↔ first = .ok () ∧ rest () = .ok () := by
  cases first <;> simp [bind, Except.bind]

theorem Validation.rule_bind_eq_ok_iff {broken : Bool} {field reason : String}
    {rest : Unit → Validation} :
    (rule broken field reason >>= rest) = .ok () ↔ broken = false ∧ rest () = .ok () := by
  unfold rule
  cases broken <;> simp [bind, Except.bind]

namespace CronSettings

theorem validate_eq_ok_iff {config : CronSettings} :
    config.validate = .ok () ↔
      (0 < config.batchLimit ∧ config.batchLimit ≤ maxBatchLimit) ∧
        (config.trigger.enabled = true →
          (Schedule.read? config.trigger.schedule).isSome = true) := by
  unfold validate
  simp only [Validation.rule_bind_eq_ok_iff, Validation.rule_eq_ok_iff, Bool.or_eq_false_iff,
    decide_eq_false_iff_not, Int.not_le, Int.not_lt]
  cases config.trigger.enabled <;> simp [Option.isSome_iff_ne_none]

end CronSettings

namespace BackoffSettings

theorem validate_eq_ok_iff {config : BackoffSettings} :
    config.validate = .ok () ↔
      0 < config.baseDelay ∧ config.baseDelay ≤ config.maxDelay ∧ 0 < config.extendedThreshold ∧
        config.maxDelay ≤ config.extendedMax := by
  unfold validate
  simp only [Validation.rule_bind_eq_ok_iff, Validation.rule_eq_ok_iff, decide_eq_false_iff_not,
    Nat.pos_iff_ne_zero, Nat.not_lt]

end BackoffSettings

namespace ClientSettings

theorem validate_eq_ok_iff {s : ClientSettings} :
    s.validate = .ok () ↔
      hasScheme s.baseUrl = true ∧ 0 < s.requestTimeout ∧ s.backoff.validate = .ok () := by
  unfold validate
  simp only [Validation.rule_bind_eq_ok_iff, decide_eq_false_iff_not, Nat.pos_iff_ne_zero,
    Bool.not_eq_false']

end ClientSettings

namespace TokenSettings

theorem validate_eq_ok_iff {config : TokenSettings} :
    config.validate = .ok () ↔
      config.secret.isEmpty = false ∧ minSecret ≤ config.secret.utf8ByteSize ∧
        0 < config.accessExpiration ∧ config.accessExpiration < config.refreshExpiration := by
  unfold validate
  simp only [Validation.rule_bind_eq_ok_iff, Validation.rule_eq_ok_iff, decide_eq_false_iff_not,
    Nat.not_lt, Int.not_le]

end TokenSettings

/-- What both the rules of the settings and those of the logger want of the outputs: there is one,
and a file that is written has a path, and limits if it is rotated. -/
structure OutputsInOrder (console : ConsoleSettings) (file : Bool) (path : String)
    (rotation : Rotation) : Prop where
  path : file = true → path.isEmpty = false
  rotation : file = true → rotation.enabled = true → 0 < rotation.maxSize ∧ 0 < rotation.maxFiles
  output : console.enabled = true ∨ file = true

namespace LoggerSettings

theorem validate_eq_ok_iff {s : LoggerSettings} :
    s.validate = .ok () ↔
      Text.isBlankText s.level = false ∧
        OutputsInOrder s.console s.file.enabled s.file.path s.file.rotation ∧
          (s.file.enabled = true → formats.contains (Text.lower s.file.format) = true) := by
  unfold validate
  simp only [Validation.rule_bind_eq_ok_iff, Validation.rule_eq_ok_iff]
  constructor
  · rintro ⟨hlevel, hpath, hformat, hsize, hfiles, houtput⟩
    refine ⟨hlevel, ⟨?_, ?_, ?_⟩, ?_⟩
    · intro hfile
      simpa [hfile] using hpath
    · intro hfile hrotates
      simp only [hfile, hrotates, Bool.true_and, decide_eq_false_iff_not] at hsize hfiles
      omega
    · cases hconsole : s.console.enabled <;> simp_all
    · intro hfile
      simpa [hfile] using hformat
  · rintro ⟨hlevel, ⟨hpath, hrotation, houtput⟩, hformat⟩
    cases hfile : s.file.enabled with
    | false => simp_all
    | true =>
      cases hrotates : s.file.rotation.enabled with
      | false => simp_all
      | true =>
        obtain ⟨hsize, hfiles⟩ := hrotation hfile hrotates
        simp_all [Nat.pos_iff_ne_zero]

end LoggerSettings

end Cadence
