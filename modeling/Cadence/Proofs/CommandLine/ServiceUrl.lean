import Cadence.CommandLine.Override
import Cadence.Proofs.Client.Message
import Cadence.Proofs.Settings.Rules
import Cadence.Proofs.Url.Authority

/-!
# The base of a service on the command line

A base that the command line takes is read again twice: by the rules of the client's settings, and
by the client. The client takes every such base, and talks to the service that was named. The rules
want `http://` or `https://` as it stands in front, and there are URLs of the web without it.
-/

namespace Cadence.CommandLine

variable {value base : String}

/-! ## What is passed on -/

theorem toList_withoutSlashes (s : String) :
    ∃ slashes, (∀ c ∈ slashes, c = '/') ∧ s.toList = (withoutSlashes s).toList ++ slashes := by
  refine ⟨(s.toList.reverse.takeWhile (· = '/')).reverse, ?_, ?_⟩
  · intro c hc
    simpa using List.mem_takeWhile_imp (List.mem_reverse.mp hc)
  · unfold withoutSlashes
    rw [String.toList_ofList, ← List.reverse_append, List.takeWhile_append_dropWhile,
      List.reverse_reverse]

section Service

variable [HostNames]

theorem of_serviceUrl (h : serviceUrl value = .ok base) :
    base = withoutSlashes value ∧
      ∃ url, Url.parse value = .ok url ∧ (url.scheme = "http" ∨ url.scheme = "https") := by
  unfold serviceUrl at h
  split at h
  · cases h
  · rename_i url hurl
    split at h
    · cases h
      exact ⟨rfl, url, hurl, ‹_›⟩
    · cases h

theorem parse_of_serviceUrl (h : serviceUrl value = .ok base) :
    ∃ url url', Url.parse value = .ok url ∧ Url.parse base = .ok url' ∧
      url'.origin = url.origin ∧ (url'.scheme = "http" ∨ url'.scheme = "https") := by
  obtain ⟨rfl, url, hurl, hscheme⟩ := of_serviceUrl h
  obtain ⟨slashes, hslashes, hvalue⟩ := toList_withoutSlashes value
  obtain ⟨url', hurl', horigin⟩ :=
    Url.origin_of_slashes hvalue (fun c hc => .inr (hslashes c hc)) hurl hscheme
  have hsame : url'.scheme = url.scheme := congrArg Prod.fst horigin
  exact ⟨url, url', hurl, hurl', horigin, hsame ▸ hscheme⟩

/-! ## What stands in front -/

theorem not_parse_beginning {start : List Char}
    (hstart : start ∈ ["http://".toList, "https://".toList]) {s : String}
    (hs : s.toList <+: start) (url : Url) : Url.parse s ≠ .ok url := by
  have hnone : ∀ start ∈ ["http://".toList, "https://".toList], ∀ k < 9,
      (Url.parse (String.ofList (start.take k))).isOk = false := by
    intro start hstart k hk
    simp only [List.mem_cons, List.not_mem_nil, or_false] at hstart
    rcases hstart with rfl | rfl <;> interval_cases k <;> rfl
  have hlength : s.toList.length < 9 := by
    have := hs.length_le
    simp only [List.mem_cons, List.not_mem_nil, or_false] at hstart
    rcases hstart with rfl | rfl <;> simp at this <;> omega
  have herror := hnone start hstart _ hlength
  rw [← List.prefix_iff_eq_take.mp hs, String.ofList_toList] at herror
  intro h
  rw [h] at herror
  cases herror

theorem hasScheme_of_serviceUrl (h : serviceUrl value = .ok base) :
    ClientSettings.hasScheme base = ClientSettings.hasScheme value := by
  obtain ⟨-, url, -, hurl, -⟩ := parse_of_serviceUrl h
  obtain ⟨slashes, -, hvalue⟩ := toList_withoutSlashes value
  rw [← (of_serviceUrl h).1] at hvalue
  have hstarts (start : List Char) (hstart : start ∈ ["http://".toList, "https://".toList]) :
      start.isPrefixOf base.toList = start.isPrefixOf value.toList := by
    rw [Bool.eq_iff_iff, List.isPrefixOf_iff_prefix, List.isPrefixOf_iff_prefix, hvalue]
    constructor
    · intro hbase
      exact hbase.trans (List.prefix_append _ _)
    · intro hall
      rcases List.prefix_or_prefix_of_prefix hall (List.prefix_append _ _) with hbase | hshort
      · exact hbase
      · -- Only slashes are cut off, and without those of the scheme there is no URL.
        exact absurd hurl (not_parse_beginning hstart hshort url)
  unfold ClientSettings.hasScheme
  rw [hstarts _ (by simp), hstarts _ (by simp)]

/-! ## Who takes it -/

/-- The section is in order if its base is. -/
def FitsService (s : ClientSettings) : Prop := 0 < s.requestTimeout ∧ s.backoff.validate = .ok ()

theorem validate_of_serviceUrl (h : serviceUrl value = .ok base) {s : ClientSettings}
    (hs : FitsService s) :
    { s with baseUrl := base }.validate = .ok () ↔ ClientSettings.hasScheme value = true := by
  rw [ClientSettings.validate_eq_ok_iff, hasScheme_of_serviceUrl h]
  simp [hs.1, hs.2]

theorem merge_of_serviceUrl (h : serviceUrl value = .ok base) {i : Invocation} {o : TriggerOptions}
    {s : Settings} (hcommand : i.command = some (.trigger o)) (hurl : o.url = some base)
    (hlogger : (i.override s).logger.validate = .ok ()) (hs : FitsService s.client) :
    (∃ s', i.merge s = .ok s') ↔ ClientSettings.hasScheme value = true := by
  have hclient : (i.override s).client = { s.client with baseUrl := base } := by
    unfold Invocation.override Command.override
    simp [hcommand, hurl]
  rw [← validate_of_serviceUrl h hs, ← hclient]
  unfold Invocation.merge Command.validate
  simp only [hcommand, hlogger, bind, Except.bind]
  cases (i.override s).client.validate <;> simp [pure, Except.pure]

/-- A base from the command line leads to the service that was named, also without the slashes at
its end; a client can be made for it, ask for a poll and refresh its tokens there. The settings of
the client are in order with it exactly if it was written with `http://` or `https://` in front, and
so a trigger for it is taken on. -/
theorem serviceUrl_serves (h : serviceUrl value = .ok base) :
    (∃ url url', Url.parse value = .ok url ∧ Url.parse base = .ok url' ∧
        url'.origin = url.origin ∧
        (∀ config access, BackoffClient.new base config access = .ok ⟨url', .new config, access⟩) ∧
        (∀ renewal, ∃ r, TokenRefresher.new url' renewal = .ok r) ∧
        ∃ run, url'.join Trigger.runPath = .ok run) ∧
      (∀ s : ClientSettings, FitsService s →
        ({ s with baseUrl := base }.validate = .ok () ↔ ClientSettings.hasScheme value = true)) ∧
      ∀ (i : Invocation) (o : TriggerOptions) (s : Settings), i.command = some (.trigger o) →
        o.url = some base → (i.override s).logger.validate = .ok () → FitsService s.client →
          ((∃ s', i.merge s = .ok s') ↔ ClientSettings.hasScheme value = true) := by
  refine ⟨?_, fun s => validate_of_serviceUrl h, fun i o s => merge_of_serviceUrl h⟩
  obtain ⟨url, url', hvalue, hbase, horigin, hscheme⟩ := parse_of_serviceUrl h
  obtain ⟨hspecial, hfile⟩ := Url.isSpecial_of_http hscheme
  obtain ⟨names, hpath⟩ := Url.path_of_parse hbase hspecial
  have hclean : Url.cleaned Trigger.runPath = '/' :: "api/cron/run".toList := by decide
  exact ⟨url, url', hvalue, hbase, horigin, BackoffClient.new_of_parse hbase,
    fun renewal => ⟨_, TokenRefresher.new_of_http hscheme hpath renewal⟩, _,
    Url.join_absolute hspecial hfile hpath hclean (by decide) (by decide)⟩

end Service

theorem serviceUrl_serves_at_port :
    let _ : HostNames := .plain
    let i : Invocation := { command := some (.trigger { url := some "http://127.0.0.1:3000" }) }
    serviceUrl "http://127.0.0.1:3000//" = .ok "http://127.0.0.1:3000" ∧
      (i.override {}).logger.validate = .ok () ∧ FitsService ({} : Settings).client ∧
        ∃ s', i.merge {} = .ok s' := by
  intro _ i
  have h : serviceUrl "http://127.0.0.1:3000//" = .ok "http://127.0.0.1:3000" := by rfl
  have hlogger : (i.override {}).logger.validate = .ok () :=
    LoggerSettings.validate_eq_ok_iff.mpr
      ⟨by decide +kernel, ⟨nofun, nofun, .inl rfl⟩, nofun⟩
  have hs : FitsService ({} : Settings).client := ⟨by decide, by rfl⟩
  obtain ⟨-, -, hmerge⟩ := serviceUrl_serves h
  exact ⟨h, hlogger, hs, (hmerge i _ {} rfl rfl hlogger hs).mpr (by decide)⟩

/-- The command line takes a scheme in capitals, and the settings are refused with it. -/
theorem serviceUrl_refused_later :
    let _ : HostNames := .plain
    serviceUrl "HTTP://127.0.0.1:1" = .ok "HTTP://127.0.0.1:1" ∧
      FitsService {} ∧
      { ({} : ClientSettings) with baseUrl := "HTTP://127.0.0.1:1" }.validate =
        .error (.validation "client.base_url" "Base URL must start with http:// or https://") :=
  ⟨by rfl, ⟨by decide, by rfl⟩, by rfl⟩

end Cadence.CommandLine
