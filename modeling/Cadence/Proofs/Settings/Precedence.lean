import Cadence.Proofs.Settings.Layers
import Cadence.Settings.Load

/-!
# Which source decides

Each single setting has the value of the highest source that says something of it: a variable of the
environment, or else the topmost file. Where no source says anything, it has the value that holds
beforehand.
-/

namespace Cadence

open Layers Toml

/-! ## Files -/

/-- The documents that a loader finds, the lowest first. -/
inductive Loader.Finds (l : Loader) (look : String → Sighting) : List (List (String × Value)) → Prop
  | layers {documents : List (List (String × Value))} (hfile : l.file? = none)
      (hread : (l.layers.filterMap (textAt? look)).mapM Toml.read? = some documents) :
      Finds l look documents
  | single {path text : String} {document : List (String × Value)} (hfile : l.file? = some path)
      (hthere : look path ≠ .missing) (htext : textAt? look path = some text)
      (hread : Toml.read? text = some document) : Finds l look [document]

namespace Loader

variable {l : Loader} {look : String → Sighting} {documents : List (List (String × Value))}

theorem addLayers_of_read {paths : List String}
    (h : (paths.filterMap (textAt? look)).mapM Toml.read? = some documents)
    (below : List (String × Value)) :
    addLayers look paths below = .ok (documents.foldl addDocument below) := by
  induction paths generalizing documents below with
  | nil =>
    cases h
    rfl
  | cons path paths ih =>
    rw [addLayers]
    cases htext : textAt? look path with
    | none =>
      rw [List.filterMap_cons_none htext] at h
      exact ih h below
    | some text =>
      rw [List.filterMap_cons_some htext, List.mapM_cons] at h
      obtain ⟨document, hread, h⟩ := Option.bind_eq_some_iff.mp h
      obtain ⟨rest, hrest, h⟩ := Option.bind_eq_some_iff.mp h
      cases h
      simp only [addText, hread]
      exact ih hrest _

theorem documents_of_finds (h : l.Finds look documents) :
    l.documents look = .ok (documents.foldl addDocument []) := by
  unfold Loader.documents
  cases h with
  | layers hfile hread =>
    rw [hfile]
    exact addLayers_of_read hread []
  | single hfile hthere htext hread =>
    rw [hfile]
    simp only [if_neg hthere, htext, addText, hread]
    rfl

end Loader

/-! ## Variables -/

namespace Layers

/-- What variables say, as a document; an empty one says nothing. -/
def ofVariables (vars : Variables) : List (String × Value) :=
  vars.filterMap fun (name, s) => if s.isEmpty then none else (settingOf? name).map (·, valueOf s)

/-- What the last variable for a path says that says something. -/
def givenBy? (path : List String) (vars : Variables) : Option Value :=
  vars.reverse.findSome? fun (name, s) =>
    if s ≠ "" ∧ (settingOf? name).map pathOf = some path then some (valueOf s) else none

theorem valueOf_ne_table (s : String) (ms : List (String × Value)) : valueOf s ≠ .table ms := by
  unfold valueOf
  split
  · nofun
  · nofun
  · split
    · nofun
    · split <;> nofun

theorem givenBy?_cons (path : List String) (m : String × String) (vars : Variables) :
    givenBy? path (m :: vars) =
      (givenBy? path vars).or (if m.2 ≠ "" ∧ (settingOf? m.1).map pathOf = some path then
        some (valueOf m.2) else none) := by
  obtain ⟨name, s⟩ := m
  unfold givenBy?
  rw [List.reverse_cons, List.findSome?_append, List.findSome?_singleton]

/-- A variable that is for a setting at all is for a single one: for no section, and for nothing
below a leaf. -/
def ForLeaves (vars : Variables) : Prop :=
  ∀ m ∈ vars, m.2 ≠ "" → ∀ setting ∈ settingOf? m.1, ∀ x ∈ Settings.leaves .layered,
    Apart x.path (pathOf setting)

instance (vars : Variables) : Decidable (ForLeaves vars) :=
  inferInstanceAs (Decidable (∀ m ∈ vars, m.2 ≠ "" → ∀ setting ∈ settingOf? m.1,
    ∀ x ∈ Settings.leaves .layered, Apart x.path (pathOf setting)))

theorem saidBy?_variable {path : List String} (hpath : path ≠ []) {m : String × String}
    (h : m.2 ≠ "" → ∀ setting ∈ settingOf? m.1, Apart path (pathOf setting)) :
    saidBy? path (ofVariables [m]) =
        (if m.2 ≠ "" ∧ (settingOf? m.1).map pathOf = some path then some (valueOf m.2) else none) ∧
      Suits path (.table (expanded (ofVariables [m]))) := by
  obtain ⟨first, path, rfl⟩ := List.exists_cons_of_ne_nil hpath
  obtain ⟨name, s⟩ := m
  unfold ofVariables saidBy? expanded
  by_cases hempty : s = ""
  · subst hempty
    exact ⟨rfl, nofun⟩
  · have hfilled : s.isEmpty = false := by simpa using hempty
    cases hsetting : settingOf? name with
    | none =>
      simp only [List.filterMap_cons, hfilled, hsetting]
      exact ⟨by simp [said?], nofun⟩
    | some setting =>
      obtain ⟨hsaid, hsuits⟩ := said?_nested (valueOf_ne_table s) hpath (h hempty setting hsetting)
      simp only [List.filterMap_cons, hfilled, hsetting]
      simpa [hempty] using ⟨hsaid, hsuits⟩

/-- Variables say something of the paths they are for, and nothing of others. -/
theorem saidBy?_ofVariables {path : List String} (hpath : path ≠ []) {vars : Variables}
    (h : ∀ m ∈ vars, m.2 ≠ "" → ∀ setting ∈ settingOf? m.1, Apart path (pathOf setting)) :
    saidBy? path (ofVariables vars) = givenBy? path vars ∧
      Suits path (.table (expanded (ofVariables vars))) := by
  induction vars with
  | nil =>
    obtain ⟨first, path, rfl⟩ := List.exists_cons_of_ne_nil hpath
    exact ⟨rfl, nofun⟩
  | cons m vars ih =>
    rw [List.forall_mem_cons] at h
    obtain ⟨hfirst, hsuits⟩ := saidBy?_variable hpath h.1
    obtain ⟨hrest, hsuits'⟩ := ih h.2
    have hvars : expanded (ofVariables (m :: vars)) =
        expanded (ofVariables [m]) ++ expanded (ofVariables vars) := by
      unfold ofVariables expanded
      rw [← List.singleton_append, List.filterMap_append, List.flatMap_append]
    obtain ⟨first, path, rfl⟩ := List.exists_cons_of_ne_nil hpath
    unfold saidBy? at *
    rw [hvars, said?_append, suits_append, hfirst, hrest, givenBy?_cons]
    exact ⟨rfl, hsuits, hsuits'⟩

example : (settingOf? "CRM_LOGGER__FILE__ROTATION__MAX_SIZE").map pathOf =
    some ["logger", "file", "rotation", "max_size"] := by
  decide +kernel

/-- Tables stand where the settings have sections, and no tables where they have leaves. -/
def Shaped (document : List (String × Value)) : Prop :=
  ∀ x ∈ Settings.leaves .layered, Suits x.path (.table (expanded document))

instance (document : List (String × Value)) : Decidable (Shaped document) :=
  inferInstanceAs (Decidable (∀ x ∈ Settings.leaves .layered,
    Suits x.path (.table (expanded document))))

end Layers

/-! ## Settings -/

theorem Settings.path_ne_nil {x : Leaf Value Settings} (h : x ∈ leaves .layered) : x.path ≠ [] := by
  obtain ⟨f, -, y, -, rfl⟩ := Part.mem_leavesOf.mp h
  exact List.cons_ne_nil f.name y.path

/-- The value of a setting: from the last variable that says something of it, or else from the
topmost document that does, or else the one that holds beforehand. -/
def Leaf.valueFrom? (x : Leaf Value Settings) (documents : List (List (String × Value)))
    (vars : Variables) : Option x.Content :=
  x.readOr? {} ((givenBy? x.path vars).or (topmost? x.path documents))

namespace Loader

variable {l : Loader} {look : String → Sighting} {documents : List (List (String × Value))}
  {vars : Variables}

/-- What the documents and the variables come to. -/
def values (documents : List (List (String × Value))) (vars : Variables) : Value :=
  .table ((documents ++ [Layers.ofVariables vars]).foldl addDocument [])

theorem loadUnvalidated_of_finds (h : l.Finds look documents) (vars : Variables) :
    l.loadUnvalidated look vars =
      match Settings.read? .layered (values documents vars) with
      | some s => .ok s
      | none => .error (.parse "Failed to deserialize configuration") := by
  have hvalues : addVariables (documents.foldl addDocument []) vars =
      (documents ++ [Layers.ofVariables vars]).foldl addDocument [] := by
    rw [List.foldl_append]
    rfl
  unfold loadUnvalidated values
  rw [documents_of_finds h, ← hvalues]
  rfl

theorem valueIn?_values (hdocuments : ∀ d ∈ documents, Shaped d) (hvars : ForLeaves vars)
    {x : Leaf Value Settings} (hx : x ∈ Settings.leaves .layered) :
    x.valueIn? .layered {} (values documents vars) = x.valueFrom? documents vars ∧
      DocumentKind.layered.Leads x.path (values documents vars) := by
  have hpath := Settings.path_ne_nil hx
  obtain ⟨hsaid, hsuits⟩ := saidBy?_ofVariables hpath fun m hm hempty setting hsetting =>
    hvars m hm hempty setting hsetting x hx
  have hshaped : ∀ d ∈ documents ++ [Layers.ofVariables vars],
      Suits x.path (.table (expanded d)) := by
    rw [List.forall_mem_append, List.forall_mem_singleton]
    exact ⟨fun d hd => hdocuments d hd x hx, hsuits⟩
  obtain ⟨hfind, hleads⟩ := find?_addDocuments hpath hshaped
  refine ⟨?_, hleads⟩
  unfold Leaf.valueIn? Leaf.valueFrom? values
  rw [hfind, topmost?_snoc, hsaid]

theorem gathers_values (hdocuments : ∀ d ∈ documents, Shaped d) (hvars : ForLeaves vars) :
    Gathers (Settings.read? .layered (values documents vars))
      ((Settings.leaves .layered).map fun x => ⟨x.Content, x.valueFrom? documents vars, x.get⟩) := by
  have hleaf {x : Leaf Value Settings} (hx : x ∈ Settings.leaves .layered) :=
    valueIn?_values hdocuments hvars hx
  have hgathers := Settings.reads_leaves.gathers _ fun x hx => (hleaf hx).2
  have hslots := List.map_congr_left fun x hx =>
    congrArg (fun found => (⟨x.Content, found, x.get⟩ : Slot Settings)) (hleaf hx).1
  exact hslots ▸ hgathers

theorem value_of_loaded (hfinds : l.Finds look documents) (hdocuments : ∀ d ∈ documents, Shaped d)
    (hvars : ForLeaves vars) {s : Settings} (hs : l.loadUnvalidated look vars = .ok s)
    {x : Leaf Value Settings} (hx : x ∈ Settings.leaves .layered) :
    x.valueFrom? documents vars = some (x.get s) := by
  rw [loadUnvalidated_of_finds hfinds] at hs
  split at hs
  · rename_i s' hs'
    cases hs
    exact (gathers_values hdocuments hvars).found hs' _ (List.mem_map_of_mem hx)
  · cases hs

theorem exists_loaded (hfinds : l.Finds look documents) (hdocuments : ∀ d ∈ documents, Shaped d)
    (hvars : ForLeaves vars)
    (h : ∀ x ∈ Settings.leaves .layered, (x.valueFrom? documents vars).isSome = true) :
    ∃ s, l.loadUnvalidated look vars = .ok s := by
  obtain ⟨s, hs⟩ := (gathers_values hdocuments hvars).there (List.forall_mem_map.mpr h)
  refine ⟨s, ?_⟩
  rw [loadUnvalidated_of_finds hfinds, hs]

/-- Each setting has the value of the highest source that says something of it, and all settings are
loaded as soon as these values can be read. Nothing but the documents and the variables matters. -/
theorem highest_source_decides (hfinds : l.Finds look documents)
    (hdocuments : ∀ d ∈ documents, Shaped d) (hvars : ForLeaves vars) :
    (∀ s, l.loadUnvalidated look vars = .ok s ↔
        ∀ x ∈ Settings.leaves .layered, x.valueFrom? documents vars = some (x.get s)) ∧
      ((∀ x ∈ Settings.leaves .layered, (x.valueFrom? documents vars).isSome = true) →
        ∃ s, l.loadUnvalidated look vars = .ok s) ∧
      ∀ {l' : Loader} {look' : String → Sighting}, l'.Finds look' documents →
        l'.loadUnvalidated look' vars = l.loadUnvalidated look vars := by
  have hvalue {s : Settings} (hs : l.loadUnvalidated look vars = .ok s) :
      ∀ x ∈ Settings.leaves .layered, x.valueFrom? documents vars = some (x.get s) :=
    fun x => value_of_loaded hfinds hdocuments hvars hs
  have hthere := exists_loaded hfinds hdocuments hvars
  refine ⟨fun s => ⟨hvalue, fun hs => ?_⟩, hthere, fun hfinds' => ?_⟩
  · -- The values at the leaves are all that there is of settings.
    obtain ⟨s', hs'⟩ := hthere fun x hx => Option.isSome_of_eq_some (hs x hx)
    have hsame : s' = s := Settings.reads_leaves.determined fun x hx =>
      Option.some.inj ((hvalue hs' x hx).symm.trans (hs x hx))
    rw [hs', hsame]
  · rw [loadUnvalidated_of_finds hfinds, loadUnvalidated_of_finds hfinds']

/-- Three files and a variable. The files of the lower layers keep what those above them leave out,
and an empty variable says nothing. -/
theorem settings_of_three_layers :
    let files := [("config/default.toml", "[server]\nport = 3000\nrequest_timeout = 5\n"),
      ("config/production.toml", "[server]\nport = 4100\n"),
      ("config/local.toml", "logger.level = 'warn'\n")]
    let look (path : String) : Sighting := (files.lookup path).elim .missing .file
    let vars : Variables := [("CRM_APP_ENV", "production"), ("CRM_SERVER__HOST", "0.0.0.0"),
      ("CRM_LOGGER__LEVEL", "")]
    let l : Loader := { environment := .production }
    let documents := ((l.layers.filterMap (textAt? look)).mapM Toml.read?).getD []
    l.Finds look documents ∧ (∀ d ∈ documents, Shaped d) ∧ ForLeaves vars ∧
      ∃ s, l.loadUnvalidated look vars = .ok s ∧ s.server = ⟨"0.0.0.0", 4100, 5⟩ ∧
        s.logger.level = "warn" := by
  intro files look vars l documents
  have hread : ((l.layers.filterMap (textAt? look)).mapM Toml.read?).isSome = true := by
    decide +kernel
  have hfinds : l.Finds look documents := by
    obtain ⟨found, hfound⟩ := Option.isSome_iff_exists.mp hread
    refine .layers rfl ?_
    change _ = some (Option.getD _ [])
    rw [hfound]
    rfl
  have hdocuments : ∀ d ∈ documents, Shaped d := by decide +kernel
  have hvars : ForLeaves vars := by decide +kernel
  obtain ⟨hload, hthere, -⟩ := highest_source_decides hfinds hdocuments hvars
  obtain ⟨s, hs⟩ := hthere (by decide +kernel)
  have hvalue (n : Nat) (x : Leaf Value Settings) (hleaf : (Settings.leaves .layered)[n]? = some x)
      {v : x.Content} (hv : x.valueFrom? documents vars = some v) : x.get s = v :=
    Option.some.inj (((hload s).mp hs x (List.mem_of_getElem? hleaf)).symm.trans hv)
  let host : Leaf Value Settings := ⟨String, ["server", "host"], Layers.str?, (·.server.host)⟩
  let port : Leaf Value Settings :=
    ⟨Nat, ["server", "port"], DocumentKind.layered.nat? Text.u16Max, (·.server.port)⟩
  let timeout : Leaf Value Settings := ⟨Nat, ["server", "request_timeout"],
    DocumentKind.layered.nat? Text.u64Max, (·.server.requestTimeout)⟩
  let level : Leaf Value Settings := ⟨String, ["logger", "level"], Layers.str?, (·.logger.level)⟩
  have hvalues : (host.valueFrom? documents vars = some "0.0.0.0" ∧
      port.valueFrom? documents vars = some (4100 : Nat)) ∧
      timeout.valueFrom? documents vars = some (5 : Nat) ∧
      level.valueFrom? documents vars = some "warn" := by
    decide +kernel
  obtain ⟨⟨hhost, hport⟩, htimeout, hlevel⟩ := hvalues
  exact ⟨hfinds, hdocuments, hvars, s, hs, ServerSettings.ext (hvalue 2 host rfl hhost)
    (hvalue 3 port rfl hport) (hvalue 4 timeout rfl htimeout), hvalue 13 level rfl hlevel⟩

end Loader

end Cadence
