import Cadence.Proofs.Json.Decode
import Cadence.Proofs.Json.Text
import Cadence.Proofs.Settings.Leaves

/-!
# Settings with keys removed

Settings are written as JSON, and any keys are taken away from what was written, at any depth. What
is left is always read, and each single setting has its value, or the one that holds where nothing
else is said if it was taken away itself or with a section around it.
-/

namespace Cadence

namespace Json

/-! ## Removing keys -/

mutual

/-- The value without the members at certain paths. -/
def without (gone : List String → Bool) : Json → Json
  | .obj ms => .obj (withoutMembers gone ms)
  | v => v

def withoutMembers (gone : List String → Bool) : List (String × Json) → List (String × Json)
  | [] => []
  | (name, v) :: ms =>
    if gone [name] then withoutMembers gone ms
    else (name, without (fun path => gone (name :: path)) v) :: withoutMembers gone ms

end

/-- The member at a path is removed, or one that it is inside of. -/
def Removed (gone : List String → Bool) (path : List String) : Prop :=
  ∃ front, front ≠ [] ∧ front <+: path ∧ gone front = true

variable {gone : List String → Bool} {name : String} {path : List String} {ms : List (String × Json)}
  {v w : Json}

theorem not_removed_nil : ¬ Removed gone [] := by
  rintro ⟨front, hne, hfront, -⟩
  exact hne (List.prefix_nil.mp hfront)

theorem removed_cons : Removed gone (name :: path) ↔
    gone [name] = true ∨ Removed (fun path => gone (name :: path)) path := by
  constructor
  · rintro ⟨front, hne, hfront, hgone⟩
    obtain ⟨first, front, rfl⟩ := List.exists_cons_of_ne_nil hne
    obtain ⟨rfl, hrest⟩ := List.cons_prefix_cons.mp hfront
    by_cases hend : front = []
    · left
      simpa [hend] using hgone
    · exact .inr ⟨front, hend, hrest, hgone⟩
  · rintro (h | ⟨front, -, hfront, hgone⟩)
    · exact ⟨[name], by simp, by simp, h⟩
    · exact ⟨name :: front, by simp, by simpa using hfront, hgone⟩

instance decRemoved (gone : List String → Bool) : (path : List String) → Decidable (Removed gone path)
  | [] => isFalse not_removed_nil
  | name :: path =>
    let _ := decRemoved (fun path => gone (name :: path)) path
    decidable_of_iff _ removed_cons.symm

theorem without_of_scalar (h : ∀ ms, w ≠ .obj ms) : w.without gone = w := by
  unfold without
  split
  · rename_i ms
    exact absurd rfl (h ms)
  · rfl

theorem lookup_withoutMembers : (withoutMembers gone ms).lookup name =
    if gone [name] = true then none
    else (ms.lookup name).map (without fun path => gone (name :: path)) := by
  induction ms with
  | nil => simp [withoutMembers]
  | cons m ms ih =>
    obtain ⟨n, v⟩ := m
    unfold withoutMembers
    by_cases hname : name = n
    · subst hname
      by_cases hgone : gone [name] = true
      · simpa [hgone] using ih
      · simp [hgone]
    · have hne : (name == n) = false := by simpa using hname
      split <;> simp [List.lookup_cons, hne, ih]

theorem names_withoutMembers : ((withoutMembers gone ms).map (·.1)).Sublist (ms.map (·.1)) := by
  induction ms with
  | nil => simp [withoutMembers]
  | cons m ms ih =>
    unfold withoutMembers
    split
    · exact ih.cons m.1
    · exact ih.cons_cons m.1

theorem mem_withoutMembers {m : String × Json} (h : m ∈ withoutMembers gone ms) :
    ∃ n ∈ ms, m = (n.1, n.2.without fun path => gone (n.1 :: path)) := by
  induction ms with
  | nil => simp [withoutMembers] at h
  | cons n ms ih =>
    unfold withoutMembers at h
    split at h
    · obtain ⟨n', hn', rfl⟩ := ih h
      exact ⟨n', by simp [hn'], rfl⟩
    · rcases List.mem_cons.mp h with rfl | h
      · exact ⟨n, by simp, rfl⟩
      · obtain ⟨n', hn', rfl⟩ := ih h
        exact ⟨n', by simp [hn'], rfl⟩

theorem Fits.without {depth : Nat} (h : v.Fits depth) (gone : List String → Bool) :
    (v.without gone).Fits depth := by
  induction depth generalizing v gone with
  | zero =>
    rw [without_of_scalar]
    · exact h
    · rintro ms rfl
      simp [Fits] at h
  | succ depth ih =>
    cases v with
    | obj ms =>
      simp only [Json.without, Fits] at h ⊢
      intro m hm
      obtain ⟨n, hn, rfl⟩ := mem_withoutMembers hm
      exact ih (h n hn) _
    | _ => exact h

/-! ## Values at paths -/

/-- What stands at a path, through objects in which no name is repeated. -/
inductive At : List String → Json → Json → Prop
  | here (w : Json) : At [] w w
  | inside {name : String} {path : List String} {ms : List (String × Json)} {v w : Json}
      (hnames : (ms.map (·.1)).Nodup) (hv : ms.lookup name = some v) (h : At path v w) :
      At (name :: path) (.obj ms) w

theorem isTable_obj (hnames : (ms.map (·.1)).Nodup) : DocumentKind.json.IsTable (.obj ms) ms :=
  fun fields => record?_obj fields hnames

theorem At.without (h : At path v w) (hw : ∀ ms, w ≠ .obj ms) (gone : List String → Bool) :
    DocumentKind.json.Leads path (v.without gone) ∧
      (Removed gone path → DocumentKind.json.find? path (v.without gone) = none) ∧
      (¬ Removed gone path → DocumentKind.json.find? path (v.without gone) = some w) := by
  induction h generalizing gone with
  | here w =>
    rw [without_of_scalar hw]
    exact ⟨trivial, fun hgone => absurd hgone not_removed_nil, fun _ => rfl⟩
  | @inside name path ms v w hnames hv h ih =>
    obtain ⟨hleads, hremoved, hkept⟩ := ih hw fun path => gone (name :: path)
    have htable : DocumentKind.json.IsTable (.obj (withoutMembers gone ms)) _ :=
      isTable_obj (hnames.sublist names_withoutMembers)
    unfold Json.without
    rw [htable.find?, lookup_withoutMembers, hv, removed_cons]
    refine ⟨⟨_, htable, fun u hu => ?_⟩, ?_⟩
    · rw [lookup_withoutMembers, hv] at hu
      split at hu
      · cases hu
      · cases hu
        exact hleads
    · by_cases hgone : gone [name] = true
      · simp [hgone]
      · simpa [hgone] using ⟨hremoved, hkept⟩

/-! ## Single settings in what is written -/

variable {A : Type}

/-- Each leaf stands in a document with the value that it has. -/
def Encodes (leaves : List (Leaf Json A)) (a : A) (v : Json) : Prop :=
  ∀ x ∈ leaves, ∃ w, At x.path v w ∧ x.read? w = some (x.get a) ∧ ∀ ms, w ≠ .obj ms

theorem encodes_leaf {C : Type} {read? : Json → Option C} {c : C} (hread : read? w = some c)
    (hw : ∀ ms, w ≠ .obj ms) : Encodes [⟨C, [], read?, id⟩] c w := by
  intro x hx
  obtain rfl := List.mem_singleton.mp hx
  exact ⟨w, .here w, hread, hw⟩

theorem encodes_section {parts : List (Part Json A)} {a : A} (hnames : (ms.map (·.1)).Nodup)
    (h : parts.Forall fun f => ∃ w, ms.lookup f.name = some w ∧ Encodes f.leaves (f.get a) w) :
    Encodes (Part.leavesOf parts) a (.obj ms) := by
  intro x hx
  obtain ⟨f, hf, y, hy, rfl⟩ := Part.mem_leavesOf.mp hx
  obtain ⟨v, hv, hleaves⟩ := List.forall_iff_forall_mem.mp h f hf
  obtain ⟨w, hat, hread, hw⟩ := hleaves y hy
  exact ⟨w, .inside hnames hv hat, hread, hw⟩

theorem encodes_str (s : String) : Encodes [⟨String, [], asStr?, id⟩] s (.str s) :=
  encodes_leaf rfl nofun

theorem encodes_bool (b : Bool) : Encodes [⟨Bool, [], asBool?, id⟩] b (.bool b) :=
  encodes_leaf rfl nofun

theorem encodes_int {low high n : Int} (h : low ≤ n ∧ n ≤ high) :
    Encodes [⟨Int, [], asIntIn? low high, id⟩] n (.int n) :=
  encodes_leaf (if_pos h) nofun

theorem encodes_nat {bound n : Nat} (h : n ≤ bound) :
    Encodes [⟨Nat, [], DocumentKind.json.nat? bound, id⟩] n (.ofNat n) := by
  apply encodes_leaf
  · have hin : (0 : Int) ≤ n ∧ (n : Int) ≤ (bound : Nat) := by omega
    simp [DocumentKind.nat?, DocumentKind.json, asIntIn?, ofNat, hin]
  · simp [ofNat]

end Json

open Json

/-! ## Sections

Numbers are read back if they fit the words that hold them. -/

theorem ApplicationSettings.encodes (s : ApplicationSettings) :
    Encodes (Part.leavesOf (parts .json)) s s.toJson :=
  encodes_section (by simp) ⟨⟨_, rfl, encodes_str _⟩, ⟨_, rfl, encodes_str _⟩⟩

structure ServerSettings.InRange (s : ServerSettings) : Prop where
  port : s.port ≤ Text.u16Max
  requestTimeout : s.requestTimeout ≤ Text.u64Max

theorem ServerSettings.encodes {s : ServerSettings} (h : s.InRange) :
    Encodes (Part.leavesOf (parts .json)) s s.toJson :=
  encodes_section (by simp) ⟨⟨_, rfl, encodes_str _⟩, ⟨_, rfl, encodes_nat h.port⟩,
    ⟨_, rfl, encodes_nat h.requestTimeout⟩⟩

structure DatabaseSettings.InRange (s : DatabaseSettings) : Prop where
  maxConnections : s.maxConnections ≤ Text.u32Max
  minConnections : s.minConnections ≤ Text.u32Max
  connectionTimeout : s.connectionTimeout ≤ Text.u64Max

theorem DatabaseSettings.encodes {s : DatabaseSettings} (h : s.InRange) :
    Encodes (Part.leavesOf (parts .json)) s s.toJson :=
  encodes_section (by simp) ⟨⟨_, rfl, encodes_str _⟩, ⟨_, rfl, encodes_nat h.maxConnections⟩,
    ⟨_, rfl, encodes_nat h.minConnections⟩, ⟨_, rfl, encodes_nat h.connectionTimeout⟩,
    ⟨_, rfl, encodes_bool _⟩⟩

structure TokenSettings.InRange (s : TokenSettings) : Prop where
  access : Text.i64Min ≤ s.accessExpiration ∧ s.accessExpiration ≤ Text.i64Max
  refresh : Text.i64Min ≤ s.refreshExpiration ∧ s.refreshExpiration ≤ Text.i64Max

theorem TokenSettings.encodes {s : TokenSettings} (h : s.InRange) :
    Encodes (Part.leavesOf (parts .json)) s s.toJson :=
  encodes_section (by simp) ⟨⟨_, rfl, encodes_str _⟩, ⟨_, rfl, encodes_int h.access⟩,
    ⟨_, rfl, encodes_int h.refresh⟩⟩

theorem ConsoleSettings.encodes (s : ConsoleSettings) :
    Encodes (Part.leavesOf (parts .json)) s s.toJson :=
  encodes_section (by simp) ⟨⟨_, rfl, encodes_bool _⟩, ⟨_, rfl, encodes_bool _⟩⟩

structure Rotation.InRange (s : Rotation) : Prop where
  maxSize : s.maxSize ≤ Text.u64Max
  maxFiles : s.maxFiles ≤ Text.u64Max

theorem Rotation.encodes {s : Rotation} (h : s.InRange) :
    Encodes (Part.leavesOf (parts .json)) s s.toJson :=
  encodes_section (by simp) ⟨⟨_, rfl, encodes_bool _⟩, ⟨_, rfl, encodes_nat h.maxSize⟩,
    ⟨_, rfl, encodes_nat h.maxFiles⟩, ⟨_, rfl, encodes_bool _⟩⟩

theorem FileSettings.encodes {s : FileSettings} (h : s.rotation.InRange) :
    Encodes (Part.leavesOf (parts .json)) s s.toJson :=
  encodes_section (by simp) ⟨⟨_, rfl, encodes_bool _⟩, ⟨_, rfl, encodes_str _⟩,
    ⟨_, rfl, encodes_bool _⟩, ⟨_, rfl, encodes_str _⟩, ⟨_, rfl, Rotation.encodes h⟩⟩

theorem LoggerSettings.encodes {s : LoggerSettings} (h : s.file.rotation.InRange) :
    Encodes (Part.leavesOf (parts .json)) s s.toJson :=
  encodes_section (by simp) ⟨⟨_, rfl, encodes_str _⟩, ⟨_, rfl, ConsoleSettings.encodes _⟩,
    ⟨_, rfl, FileSettings.encodes h⟩⟩

theorem TriggerSettings.encodes (s : TriggerSettings) :
    Encodes (Part.leavesOf (parts .json)) s s.toJson :=
  encodes_section (by simp) ⟨⟨_, rfl, encodes_bool _⟩, ⟨_, rfl, encodes_str _⟩⟩

theorem StoreKind.ofName?_name (s : StoreKind) : ofName? s.name = some s := by
  cases s <;> rfl

theorem CronSettings.encodes {s : CronSettings}
    (h : Text.i64Min ≤ s.batchLimit ∧ s.batchLimit ≤ Text.i64Max) :
    Encodes (Part.leavesOf (parts .json)) s s.toJson :=
  encodes_section (by simp) ⟨⟨_, rfl, encodes_leaf s.store.ofName?_name nofun⟩,
    ⟨_, rfl, encodes_int h⟩, ⟨_, rfl, encodes_bool _⟩, ⟨_, rfl, TriggerSettings.encodes _⟩⟩

structure BackoffSettings.InRange (s : BackoffSettings) : Prop where
  baseDelay : s.baseDelay ≤ Text.u64Max
  maxDelay : s.maxDelay ≤ Text.u64Max
  jitter : s.jitter ≤ Text.u64Max
  extendedThreshold : s.extendedThreshold ≤ Text.u32Max
  extendedMax : s.extendedMax ≤ Text.u64Max

theorem BackoffSettings.encodes {s : BackoffSettings} (h : s.InRange) :
    Encodes (Part.leavesOf (parts .json)) s s.toJson :=
  encodes_section (by simp) ⟨⟨_, rfl, encodes_nat h.baseDelay⟩, ⟨_, rfl, encodes_nat h.maxDelay⟩,
    ⟨_, rfl, encodes_nat h.jitter⟩, ⟨_, rfl, encodes_nat h.extendedThreshold⟩,
    ⟨_, rfl, encodes_nat h.extendedMax⟩⟩

structure ClientSettings.InRange (s : ClientSettings) : Prop where
  requestTimeout : s.requestTimeout ≤ Text.u64Max
  backoff : s.backoff.InRange

theorem ClientSettings.encodes {s : ClientSettings} (h : s.InRange) :
    Encodes (Part.leavesOf (parts .json)) s s.toJson :=
  encodes_section (by simp) ⟨⟨_, rfl, encodes_str _⟩, ⟨_, rfl, encodes_nat h.requestTimeout⟩,
    ⟨_, rfl, BackoffSettings.encodes h.backoff⟩⟩

namespace Settings

/-- The numbers of the settings fit the words that hold them. -/
structure InRange (s : Settings) : Prop where
  server : s.server.InRange
  database : s.database.InRange
  jwt : s.jwt.InRange
  rotation : s.logger.file.rotation.InRange
  batchLimit : Text.i64Min ≤ s.cron.batchLimit ∧ s.cron.batchLimit ≤ Text.i64Max
  client : s.client.InRange

theorem encodes {s : Settings} (h : s.InRange) : Encodes (leaves .json) s s.toJson :=
  encodes_section (by simp) ⟨⟨_, rfl, ApplicationSettings.encodes _⟩,
    ⟨_, rfl, ServerSettings.encodes h.server⟩, ⟨_, rfl, DatabaseSettings.encodes h.database⟩,
    ⟨_, rfl, TokenSettings.encodes h.jwt⟩, ⟨_, rfl, LoggerSettings.encodes h.rotation⟩,
    ⟨_, rfl, CronSettings.encodes h.batchLimit⟩, ⟨_, rfl, ClientSettings.encodes h.client⟩⟩

theorem fits_toJson {s : Settings} (h : s.InRange) : s.toJson.Fits maxDepth := by
  obtain ⟨⟨hport, htimeout⟩, ⟨hmax, hmin, hconnection⟩, ⟨haccess, hrefresh⟩, ⟨hsize, hfiles⟩, hbatch,
    hclient, hbase, hdelay, hjitter, hthreshold, hextended⟩ := h
  have hwords : (Text.u16Max ≤ Text.u64Max ∧ Text.u32Max ≤ Text.u64Max) ∧
      Text.i64Max ≤ (Text.u64Max : Int) := by decide
  simp only [toJson, ApplicationSettings.toJson, ServerSettings.toJson, DatabaseSettings.toJson,
    TokenSettings.toJson, LoggerSettings.toJson, ConsoleSettings.toJson, FileSettings.toJson,
    Rotation.toJson, CronSettings.toJson, TriggerSettings.toJson, ClientSettings.toJson,
    BackoffSettings.toJson, maxDepth, Fits, ofNat, List.forall_mem_cons, List.not_mem_nil,
    false_implies, implies_true, and_true, true_and]
  have hlow : Text.i64Min ≤ 0 := by decide
  omega

theorem valueIn?_without {s : Settings} (h : s.InRange) (gone : List String → Bool)
    {x : Leaf Json Settings} (hx : x ∈ leaves .json) :
    DocumentKind.json.Leads x.path (s.toJson.without gone) ∧
      (Removed gone x.path → x.valueIn? .json {} (s.toJson.without gone) = some (x.get {})) ∧
      (¬ Removed gone x.path → x.valueIn? .json {} (s.toJson.without gone) = some (x.get s)) := by
  obtain ⟨w, hat, hread, hw⟩ := encodes h x hx
  obtain ⟨hleads, hremoved, hkept⟩ := hat.without hw gone
  unfold Leaf.valueIn?
  refine ⟨hleads, fun hgone => ?_, fun hgone => ?_⟩
  · rw [hremoved hgone]
    rfl
  · rw [hkept hgone]
    exact hread

theorem read?_without {s : Settings} (h : s.InRange) (gone : List String → Bool) :
    ∃ s', ofJson? (s.toJson.without gone) = some s' ∧ ∀ x ∈ leaves .json,
      (Removed gone x.path → x.get s' = x.get {}) ∧
        (¬ Removed gone x.path → x.get s' = x.get s) := by
  have hgathers := reads_leaves.gathers (s.toJson.without gone) fun x hx =>
    (valueIn?_without h gone hx).1
  have hthere : ∀ x ∈ leaves .json,
      (x.valueIn? .json {} (s.toJson.without gone)).isSome = true := by
    intro x hx
    obtain ⟨-, hremoved, hkept⟩ := valueIn?_without h gone hx
    by_cases hgone : Removed gone x.path
    · simp [hremoved hgone]
    · simp [hkept hgone]
  obtain ⟨s', hs'⟩ := hgathers.there (List.forall_mem_map.mpr hthere)
  refine ⟨s', hs', fun x hx => ?_⟩
  have hfound : x.valueIn? .json {} (s.toJson.without gone) = some (x.get s') :=
    hgathers.found hs' _ (List.mem_map_of_mem hx)
  obtain ⟨-, hremoved, hkept⟩ := valueIn?_without h gone hx
  rw [hfound] at hremoved hkept
  exact ⟨fun hgone => Option.some.inj (hremoved hgone), fun hgone => Option.some.inj (hkept hgone)⟩

/-- Whatever keys are removed from settings that are written, the rest is read. Each single setting
has its default if it or a section around it is removed, and its own value otherwise; and nothing
matters but which single settings are removed in one way or the other. -/
theorem missing_keys_take_defaults {s : Settings} (h : s.InRange) (gone : List String → Bool) :
    let read (gone : List String → Bool) : Option Settings :=
      (Json.read? (s.toJson.without gone).text).bind ofJson?
    (∃ s', read gone = some s' ∧ ∀ x ∈ leaves .json,
        (Removed gone x.path → x.get s' = x.get {}) ∧
          (¬ Removed gone x.path → x.get s' = x.get s)) ∧
      ((∀ path, gone path = false) → read gone = some s) ∧
      ∀ gone', (∀ x ∈ leaves .json, Removed gone x.path ↔ Removed gone' x.path) →
        read gone = read gone' := by
  intro read
  have hread (gone : List String → Bool) : read gone = ofJson? (s.toJson.without gone) := by
    simp only [read, Json.read?_text ((fits_toJson h).without gone), Option.bind_some]
  simp only [hread]
  obtain ⟨s', hs', hleaves⟩ := read?_without h gone
  refine ⟨⟨s', hs', hleaves⟩, fun hnone => ?_, fun gone' hsame => ?_⟩
  · -- With nothing removed, all single settings are as they were.
    have hs : s' = s := reads_leaves.determined fun x hx => (hleaves x hx).2 <| by
      rintro ⟨front, -, -, hgone⟩
      simp [hnone] at hgone
    rw [hs', hs]
  · obtain ⟨t, ht, hleaves'⟩ := read?_without h gone'
    have hst : s' = t := (reads_leaves (k := .json)).determined fun x hx => by
      by_cases hgone : Removed gone x.path
      · rw [(hleaves x hx).1 hgone, (hleaves' x hx).1 ((hsame x hx).mp hgone)]
      · rw [(hleaves x hx).2 hgone, (hleaves' x hx).2 fun h => hgone ((hsame x hx).mpr h)]
    rw [hs', ht, hst]

theorem missing_keys_take_defaults_of_three :
    let s : Settings := {
      server := { host := "0.0.0.0", port := 4100 }
      logger := { file := { rotation := { maxFiles := 9 } } }
      client := { requestTimeout := 5 } }
    let keys := [["server", "port"], ["logger", "file", "rotation"], ["client"]]
    s.InRange ∧ ∃ s', (Json.read? (s.toJson.without keys.contains).text).bind ofJson? = some s' ∧
      s'.server.host = "0.0.0.0" ∧ s'.server.port = 3000 ∧ s'.logger.file.rotation.maxFiles = 5 ∧
        s'.client.requestTimeout = 30 := by
  intro s keys
  have hrange : s.InRange :=
    ⟨⟨by decide, by decide⟩, ⟨by decide, by decide, by decide⟩, ⟨by decide, by decide⟩,
      ⟨by decide, by decide⟩, by decide,
      ⟨by decide, ⟨by decide, by decide, by decide, by decide, by decide⟩⟩⟩
  obtain ⟨⟨s', hs', hleaves⟩, -, -⟩ := missing_keys_take_defaults hrange keys.contains
  have hleaf (n : Nat) {x : Leaf Json Settings} (hx : (leaves .json)[n]? = some x) :=
    hleaves x (List.mem_of_getElem? hx)
  exact ⟨hrange, s', hs', (hleaf 2 rfl).2 (by decide), (hleaf 3 rfl).1 (by decide),
    (hleaf 22 rfl).1 (by decide), (hleaf 30 rfl).1 (by decide)⟩

end Settings

end Cadence
