import Cadence.Proofs.Settings.Precedence
import Cadence.Proofs.Text.Numerals
import Mathlib.Data.List.Nodup

/-!
# Texts from the environment

A variable is first read as a truth value or a number, and only then as a text. Where a setting is a
text, the truth value or the number is written out again, so that a text of this kind may come out
as another one. A file has the text as it is.
-/

namespace Cadence

open Layers Toml

/-! ## Texts that are read as something else -/

namespace Layers

def IsTruthWord (v : String) : Prop := Text.lower v = "true" ∨ Text.lower v = "false"

/-- What a text setting is where a variable gives a text. -/
def shown (v : String) : String := (str? (valueOf v)).getD v

/-- A truth word in other letters, an integer with a sign or zeros too many, or another number that
is not in its shortest form. -/
inductive IsRespelled (v : String) : Prop
  | word (hword : IsTruthWord v) (hcase : Text.lower v ≠ v)
  | integer {n : Int} (hword : ¬ IsTruthWord v)
      (hread : Text.signed? Text.i64Min Text.i64Max v.toList = some n)
      (hspelled : Text.IsOverspelled v.toList)
  | number {x : Number.Binary64} (hword : ¬ IsTruthWord v)
      (hinteger : Text.signed? Text.i64Min Text.i64Max v.toList = none)
      (hread : Number.Binary64.ofText? v.toList = some x) (hshort : v ≠ x.positional)

theorem valueOf_cases (v : String) :
    (Text.lower v = "true" ∧ valueOf v = .bool true) ∨
      (Text.lower v = "false" ∧ valueOf v = .bool false) ∨
      ¬ IsTruthWord v ∧
        ((∃ n, Text.signed? Text.i64Min Text.i64Max v.toList = some n ∧ valueOf v = .int n) ∨
          Text.signed? Text.i64Min Text.i64Max v.toList = none ∧
            ((∃ x, Number.Binary64.ofText? v.toList = some x ∧ valueOf v = .float x) ∨
              Number.Binary64.ofText? v.toList = none ∧ valueOf v = .text v)) := by
  unfold valueOf IsTruthWord
  split
  · rename_i htrue
    exact .inl ⟨htrue, rfl⟩
  · rename_i hfalse
    exact .inr (.inl ⟨hfalse, rfl⟩)
  · rename_i htrue hfalse
    refine .inr (.inr ⟨not_or.mpr ⟨htrue, hfalse⟩, ?_⟩)
    split
    · rename_i n hn
      exact .inl ⟨n, hn, rfl⟩
    · rename_i hinteger
      refine .inr ⟨hinteger, ?_⟩
      split
      · rename_i x hx
        exact .inl ⟨x, hx, rfl⟩
      · rename_i hnumber
        exact .inr ⟨hnumber, rfl⟩

theorem str?_valueOf (v : String) : str? (valueOf v) = some (shown v) := by
  unfold shown
  rcases valueOf_cases v with ⟨-, h⟩ | ⟨-, h⟩ | ⟨-, ⟨n, -, h⟩ | ⟨-, ⟨x, -, h⟩ | ⟨-, h⟩⟩⟩ <;>
    rw [h] <;> rfl

theorem respelled_word {v : String} (hword : IsTruthWord v) :
    Text.lower v = v ↔ ¬ IsRespelled v := by
  rw [← not_iff_not, not_not]
  refine ⟨.word hword, fun hrespelled => ?_⟩
  cases hrespelled with
  | word _ hcase => exact hcase
  | integer hword' | number hword' => exact absurd hword hword'

/-- A text comes out as it is unless it is respelled. -/
theorem shown_eq_iff (v : String) : shown v = v ↔ ¬ IsRespelled v := by
  have hshown := str?_valueOf v
  -- Each way in which a text is read excludes the ways of the other constructors.
  rcases valueOf_cases v with
    ⟨hlower, h⟩ | ⟨hlower, h⟩ | ⟨hword, ⟨n, hn, h⟩ | ⟨hn, ⟨x, hx, h⟩ | ⟨hx, h⟩⟩⟩ <;>
    rw [h] at hshown <;> rw [← Option.some.inj hshown]
  · rw [if_pos rfl, ← hlower]
    exact respelled_word (.inl hlower)
  · rw [if_neg Bool.false_ne_true, ← hlower]
    exact respelled_word (.inr hlower)
  · rw [← String.toList_inj, Text.toString_eq_iff hn, not_iff_not]
    refine ⟨.integer hword hn, fun hrespelled => ?_⟩
    cases hrespelled with
    | word hword' => exact absurd hword' hword
    | integer _ _ hspelled => exact hspelled
    | number _ hn' =>
      rw [hn] at hn'
      cases hn'
  · rw [eq_comm, ← not_iff_not, not_not]
    refine ⟨.number hword hn hx, fun hrespelled => ?_⟩
    cases hrespelled with
    | word hword' => exact absurd hword' hword
    | integer _ hn' =>
      rw [hn] at hn'
      cases hn'
    | number _ _ hx' hshort =>
      cases hx.symm.trans hx'
      exact hshort
  · refine iff_of_true rfl fun hrespelled => ?_
    cases hrespelled with
    | word hword' => exact hword hword'
    | integer _ hn' =>
      rw [hn] at hn'
      cases hn'
    | number _ _ hx' =>
      rw [hx] at hx'
      cases hx'

theorem isWordChar_of_lower {v word : String}
    (hword : word.toList.all (fun c => c.isAlpha && c != 'k') = true) (h : Text.lower v = word) :
    ∀ c ∈ v.toList, Text.IsWordChar c := by
  intro c hc
  have hmem : Text.lowerChar c ∈ word.toList := by
    rw [← h, Text.lower, String.toList_ofList]
    exact List.mem_map_of_mem hc
  obtain ⟨hletter, hne⟩ := Bool.and_eq_true_iff.mp (List.all_eq_true.mp hword _ hmem)
  unfold Text.lowerChar at hletter hne
  split at hletter
  · -- The one character that is no plain letter and has one as its lower case.
    rename_i hkelvin
    rw [if_pos hkelvin] at hne
    cases hne
  · exact .of_isAlpha (Text.isAlpha_of_toLower hletter)

theorem shown_of_other_char {v : String} {c : Char} (hc : c ∈ v.toList)
    (hother : ¬ Text.IsWordChar c) : shown v = v := by
  refine (shown_eq_iff v).mpr fun hrespelled => hother ?_
  cases hrespelled with
  | word hword =>
    exact hword.elim (fun h => isWordChar_of_lower (by decide) h c hc)
      fun h => isWordChar_of_lower (by decide) h c hc
  | integer _ hread => exact Text.isWordChar_of_signed? hread c hc
  | number _ _ hread => exact Text.isWordChar_of_ofText? hread c hc

example : shown "postgres://localhost/crm" = "postgres://localhost/crm" :=
  shown_of_other_char (c := ':') (by decide) (by decide)

/-! ## Variables for one setting -/

/-- The variable is for the setting at the path. -/
def IsFor (path : List String) (name : String) : Prop := (settingOf? name).map pathOf = some path

instance (path : List String) (name : String) : Decidable (IsFor path name) :=
  inferInstanceAs (Decidable (_ = _))

/-- Of the variables for the setting one has the text, and no other says anything else. -/
structure Sets (vars : Variables) (path : List String) (v : String) : Prop where
  given : ∃ m ∈ vars, IsFor path m.1 ∧ m.2 = v
  alone : ∀ m ∈ vars, IsFor path m.1 → m.2 = v ∨ m.2 = ""

/-- The variables but those for the setting. -/
def unset (path : List String) (vars : Variables) : Variables :=
  vars.filter fun m => ¬ IsFor path m.1

variable {path : List String} {vars : Variables} {v : String}

theorem givenBy?_of_sets (hv : v ≠ "") (h : Sets vars path v) :
    givenBy? path vars = some (valueOf v) := by
  obtain ⟨⟨m, hm, hfor, hgiven⟩, halone⟩ := h
  cases hsaid : givenBy? path vars with
  | none =>
    have hnone : (if m.2 ≠ "" ∧ IsFor path m.1 then some (valueOf m.2) else none) = none :=
      List.findSome?_eq_none_iff.mp hsaid m (List.mem_reverse.mpr hm)
    rw [if_pos ⟨hgiven ▸ hv, hfor⟩] at hnone
    cases hnone
  | some w =>
    obtain ⟨k, hk, hw⟩ := List.exists_of_findSome?_eq_some hsaid
    obtain ⟨⟨hfilled, hfor'⟩, hvalue⟩ := Option.ite_none_right_eq_some.mp hw
    rw [(halone k (List.mem_reverse.mp hk) hfor').resolve_right hfilled] at hvalue
    exact hvalue.symm

theorem givenBy?_unset (path : List String) (vars : Variables) :
    givenBy? path (unset path vars) = none := by
  refine List.findSome?_eq_none_iff.mpr fun m hm => if_neg fun h => ?_
  have hnot := (List.mem_filter.mp (List.mem_reverse.mp hm)).2
  exact of_decide_eq_true hnot h.2

theorem unset_singleton {m : String × String} (h : IsFor path m.1) : unset path [m] = [] :=
  List.filter_eq_nil_iff.mpr (List.forall_mem_singleton.mpr (by simpa using h))

theorem givenBy?_unset_of_ne {other : List String} (hne : other ≠ path) (vars : Variables) :
    givenBy? other (unset path vars) = givenBy? other vars := by
  unfold unset
  induction vars with
  | nil => rfl
  | cons m vars ih =>
    rw [givenBy?_cons, ← ih]
    by_cases hfor : IsFor path m.1
    · -- A variable for the one path is none for the other.
      have hother : ¬ (m.2 ≠ "" ∧ (settingOf? m.1).map pathOf = some other) := fun h =>
        hne (Option.some.inj (h.2.symm.trans hfor))
      rw [List.filter_cons_of_neg (by simpa using hfor), if_neg hother, Option.or_none]
    · rw [List.filter_cons_of_pos (by simpa using hfor), givenBy?_cons]

theorem ForLeaves.unset (h : ForLeaves vars) (path : List String) :
    ForLeaves (Layers.unset path vars) := fun m hm => h m (List.mem_of_mem_filter hm)

def asText? : Value → Option String
  | .text s => some s
  | _ => none

theorem eq_text_of_asText? {w : Value} (h : asText? w = some v) : w = .text v := by
  cases w <;> cases h
  rfl

/-- The document has a text at the path, and nothing else. -/
structure SetsText (document : List (String × Value)) (path : List String) (w : String) : Prop where
  shaped : Shaped document
  given : saidBy? path document = some (.text w)
  alone : ∀ x ∈ Settings.leaves .layered, x.path ≠ path → saidBy? x.path document = none

end Layers

/-! ## Settings that are texts -/

/-- A setting that is a text. -/
def Leaf.text (path : List String) (get : Settings → String) : Leaf Value Settings :=
  ⟨String, path, DocumentKind.layered.str?, get⟩

def variableChars (path : List String) : List Char :=
  "CRM_".toList ++ List.intercalate "__".toList (path.map fun name => name.toList.map Char.toUpper)

/-- The name of the variable for a setting. -/
def variableFor (path : List String) : String := String.ofList (variableChars path)

theorem isFor_ofList {path : List String} {cs ds : List Char}
    (hmark : Text.dropPrefix? "crm_".toList (cs.map Text.lowerChar) = some ds)
    (hparts : Text.splitOn '.' (dotted ds) = path.map String.toList)
    (hchars : (path.map String.toList).all fun p => !p.isEmpty && p.all isPathChar) :
    IsFor path (String.ofList cs) := by
  have hlower : (Text.lower (String.ofList cs)).toList = cs.map Text.lowerChar := by
    unfold Text.lower
    simp only [String.toList_ofList]
  have hpath : (path.map String.toList).map String.ofList = path := by
    simp [Function.comp_def]
  unfold IsFor settingOf? pathOf
  rw [hlower, hmark, Option.map_some, Option.map_some]
  simp only [String.toList_ofList, hparts, hchars, hpath, if_true]

theorem isFor_variableFor : ∀ x ∈ Settings.leaves .layered, IsFor x.path (variableFor x.path) := by
  have hspelled : ∀ x ∈ Settings.leaves .layered,
      (Text.dropPrefix? "crm_".toList ((variableChars x.path).map Text.lowerChar)).map
          (fun ds => Text.splitOn '.' (dotted ds)) = some (x.path.map String.toList) ∧
        (x.path.map String.toList).all fun p => !p.isEmpty && p.all isPathChar := by
    decide +kernel
  intro x hx
  obtain ⟨hparts, hchars⟩ := hspelled x hx
  obtain ⟨ds, hmark, hparts⟩ := Option.map_eq_some_iff.mp hparts
  exact isFor_ofList hmark hparts hchars

theorem sets_variableFor {x : Leaf Value Settings} (hx : x ∈ Settings.leaves .layered)
    (v : String) : Sets [(variableFor x.path, v)] x.path v :=
  ⟨⟨_, List.mem_singleton_self _, isFor_variableFor x hx, rfl⟩,
    List.forall_mem_singleton.mpr fun _ => .inl rfl⟩

theorem Settings.apart_paths : ∀ x ∈ leaves DocumentKind.layered,
    ∀ y ∈ leaves DocumentKind.layered, Apart y.path x.path := by
  decide +kernel

theorem forLeaves_variableFor {x : Leaf Value Settings} (hx : x ∈ Settings.leaves .layered)
    (v : String) : ForLeaves [(variableFor x.path, v)] := by
  refine List.forall_mem_singleton.mpr fun _ setting hsetting y hy => ?_
  have hfor : (settingOf? (variableFor x.path)).map pathOf = some x.path := isFor_variableFor x hx
  rw [hsetting, Option.map_some, Option.some.injEq] at hfor
  exact hfor ▸ Settings.apart_paths x hx y hy

theorem Settings.nodup_paths : ((leaves DocumentKind.layered).map (·.path)).Nodup := by
  decide +kernel

theorem Settings.eq_of_path_eq {x y : Leaf Value Settings} (hx : x ∈ leaves .layered)
    (hy : y ∈ leaves .layered) (h : x.path = y.path) : x = y :=
  List.inj_on_of_nodup_map nodup_paths hx hy h

theorem Gathers.unique {A : Type} {o o' : Option A} {slots : List (Slot A)} (h : Gathers o slots)
    (h' : Gathers o' slots) (hext : ∀ a b, (∀ s ∈ slots, s.get a = s.get b) → a = b) : o = o' := by
  have hle {q q' : Option A} (hq : Gathers q slots) (hq' : Gathers q' slots) {a : A}
      (ha : q = some a) : q' = some a := by
    have hfound := hq.found ha
    obtain ⟨b, hb⟩ := hq'.there fun s hs => by rw [hfound s hs]; rfl
    rw [hb, hext b a fun s hs => Option.some.inj ((hq'.found hb s hs).symm.trans (hfound s hs))]
  cases ho : o with
  | some a => exact (hle h h' ho).symm
  | none =>
    cases ho' : o' with
    | none => rfl
    | some a => rw [hle h' h ho'] at ho; cases ho

namespace Loader

variable {l l' : Loader} {look look' : String → Sighting}
  {documents documents' : List (List (String × Value))} {vars vars' : Variables}

theorem loadUnvalidated_congr (hfinds : l.Finds look documents)
    (hfinds' : l'.Finds look' documents') (hdocuments : ∀ d ∈ documents, Shaped d)
    (hdocuments' : ∀ d ∈ documents', Shaped d) (hvars : ForLeaves vars) (hvars' : ForLeaves vars')
    (hsame : ∀ x ∈ Settings.leaves .layered,
      x.valueFrom? documents vars = x.valueFrom? documents' vars') :
    l.loadUnvalidated look vars = l'.loadUnvalidated look' vars' := by
  have hslots := List.map_congr_left fun x hx =>
    congrArg (fun found => (⟨x.Content, found, x.get⟩ : Slot Settings)) (hsame x hx)
  have hgathers := gathers_values hdocuments hvars
  rw [hslots] at hgathers
  have hread := hgathers.unique (gathers_values hdocuments' hvars') fun a b hab =>
    Settings.reads_leaves.determined fun x hx => hab _ (List.mem_map_of_mem hx)
  rw [loadUnvalidated_of_finds hfinds, loadUnvalidated_of_finds hfinds', hread]

variable {path : List String} {get : Settings → String} {v : String}

theorem valueFrom?_of_sets (hv : v ≠ "") (hsets : Sets vars path v) :
    (Leaf.text path get).valueFrom? documents vars = some (shown v) := by
  unfold Leaf.valueFrom?
  have hgiven : givenBy? (Leaf.text path get).path vars = some (valueOf v) :=
    givenBy?_of_sets hv hsets
  rw [hgiven, Option.some_or]
  exact str?_valueOf v

theorem valueFrom?_of_setsText {document : List (String × Value)} {w : String}
    (hdocument : SetsText document path w) (vars : Variables) :
    (Leaf.text path get).valueFrom? (documents ++ [document]) (unset path vars) = some w := by
  unfold Leaf.valueFrom?
  have hgiven : givenBy? (Leaf.text path get).path (unset path vars) = none :=
    givenBy?_unset path vars
  have hsaid : saidBy? (Leaf.text path get).path document = some (.text w) := hdocument.given
  rw [hgiven, Option.none_or, topmost?_snoc, hsaid]
  rfl

theorem valueFrom?_unset_of_ne {x : Leaf Value Settings} (hne : x.path ≠ path) :
    x.valueFrom? documents (unset path vars) = x.valueFrom? documents vars := by
  unfold Leaf.valueFrom?
  rw [givenBy?_unset_of_ne hne]

theorem valueFrom?_of_ne {document : List (String × Value)} {w : String}
    (hdocument : SetsText document path w) (vars : Variables) {x : Leaf Value Settings}
    (hx : x ∈ Settings.leaves .layered) (hne : x.path ≠ path) :
    x.valueFrom? (documents ++ [document]) (unset path vars) = x.valueFrom? documents vars := by
  rw [valueFrom?_unset_of_ne hne]
  unfold Leaf.valueFrom?
  rw [topmost?_snoc, hdocument.alone x hx hne, Option.none_or]

/-- Where no file is found, and the variable of one setting is all there is, all settings are
loaded, this one as the text is shown. -/
theorem loaded_of_variable (ht : Leaf.text path get ∈ Settings.leaves .layered) (hv : v ≠ "")
    (hfinds : l.Finds look []) :
    ∃ s, l.loadUnvalidated look [(variableFor path, v)] = .ok s ∧ get s = shown v := by
  have hdocuments : ∀ d ∈ ([] : List (List (String × Value))), Shaped d := List.forall_mem_nil _
  have hvars : ForLeaves [(variableFor path, v)] := forLeaves_variableFor ht v
  have hsets : Sets [(variableFor path, v)] path v := sets_variableFor ht v
  have hdefaults : ∀ x ∈ Settings.leaves .layered, (x.valueFrom? [] []).isSome = true := by
    decide +kernel
  have hvalue : (Leaf.text path get).valueFrom? [] [(variableFor path, v)] = some (shown v) :=
    valueFrom?_of_sets hv hsets
  obtain ⟨s, hs⟩ := exists_loaded hfinds hdocuments hvars fun x hx => by
    by_cases hpath : x.path = path
    · obtain rfl : x = Leaf.text path get := Settings.eq_of_path_eq hx ht hpath
      rw [hvalue]
      rfl
    · have hfor : IsFor path (variableFor path) := isFor_variableFor (Leaf.text path get) ht
      have hunset : unset path [(variableFor path, v)] = [] := unset_singleton hfor
      rw [← valueFrom?_unset_of_ne hpath, hunset]
      exact hdefaults x hx
  exact ⟨s, hs,
    Option.some.inj ((value_of_loaded hfinds hdocuments hvars hs ht).symm.trans hvalue)⟩

/-- From its variable a text setting is loaded as the text is shown, and from a file as it is. A
file with what is shown comes to the same settings as the variable. A text is shown as it is unless
it is respelled. -/
theorem variables_keep_texts (ht : Leaf.text path get ∈ Settings.leaves .layered) (hv : v ≠ "")
    (hsets : Sets vars path v) (hfinds : l.Finds look documents)
    (hdocuments : ∀ d ∈ documents, Shaped d) (hvars : ForLeaves vars) :
    (∀ s, l.loadUnvalidated look vars = .ok s → get s = shown v) ∧
      ((∀ x ∈ Settings.leaves .layered, x.path ≠ path →
          (x.valueFrom? documents vars).isSome = true) →
        ∃ s, l.loadUnvalidated look vars = .ok s) ∧
      (∀ {l' : Loader} {look' : String → Sighting} {document : List (String × Value)} {w : String},
        l'.Finds look' (documents ++ [document]) → SetsText document path w →
        (∀ s, l'.loadUnvalidated look' (unset path vars) = .ok s → get s = w) ∧
          (w = shown v →
            l'.loadUnvalidated look' (unset path vars) = l.loadUnvalidated look vars)) ∧
      (shown v = v ↔ ¬ IsRespelled v) := by
  have hvalue : (Leaf.text path get).valueFrom? documents vars = some (shown v) :=
    valueFrom?_of_sets hv hsets
  refine ⟨fun s hs => ?_, fun hothers => ?_,
    fun {l' look' document w} hfinds' hdocument => ?_, shown_eq_iff v⟩
  · exact Option.some.inj ((value_of_loaded hfinds hdocuments hvars hs ht).symm.trans hvalue)
  · refine exists_loaded hfinds hdocuments hvars fun x hx => ?_
    by_cases hpath : x.path = path
    · obtain rfl : x = Leaf.text path get := Settings.eq_of_path_eq hx ht hpath
      rw [hvalue]
      rfl
    · exact hothers x hx hpath
  · have hshaped : ∀ d ∈ documents ++ [document], Shaped d := by
      rw [List.forall_mem_append, List.forall_mem_singleton]
      exact ⟨hdocuments, hdocument.shaped⟩
    have hunset := hvars.unset path
    have hvalue' : (Leaf.text path get).valueFrom? (documents ++ [document]) (unset path vars) =
        some w := valueFrom?_of_setsText hdocument vars
    refine ⟨fun s hs => ?_, fun hw => ?_⟩
    · exact Option.some.inj ((value_of_loaded hfinds' hshaped hunset hs ht).symm.trans hvalue')
    -- Both ways of loading have the same value at every leaf.
    · refine loadUnvalidated_congr hfinds' hfinds hshaped hdocuments hunset hvars fun x hx => ?_
      by_cases hpath : x.path = path
      · obtain rfl : x = Leaf.text path get := Settings.eq_of_path_eq hx ht hpath
        rw [hvalue', hvalue, hw]
      · exact valueFrom?_of_ne hdocument vars hx hpath

/-- A secret with letters and hyphens is the same from a variable and from a file. -/
theorem variables_keep_secret :
    let v := "an-adequately-long-test-secret-value"
    let text := "jwt.secret = 'an-adequately-long-test-secret-value'"
    let vars : Variables := [("CRM_JWT__SECRET", v)]
    let look (path : String) : Sighting := if path = "crm.toml" then .file text else .missing
    let l : Loader := {}
    let l' : Loader := { file? := some "crm.toml" }
    v ≠ "" ∧ Sets vars ["jwt", "secret"] v ∧ ForLeaves vars ∧ l.Finds look [] ∧
      (∃ document, l'.Finds look [document] ∧ SetsText document ["jwt", "secret"] v) ∧
      ¬ IsRespelled v ∧ l'.loadUnvalidated look [] = l.loadUnvalidated look vars ∧
      ∃ s, l.loadUnvalidated look vars = .ok s ∧ s.jwt.secret = v := by
  intro v text vars look l l'
  have hleaf : (Settings.leaves .layered)[10]? =
      some (Leaf.text ["jwt", "secret"] (·.jwt.secret)) := rfl
  have hv : v ≠ "" := by decide
  have hsets : Sets vars ["jwt", "secret"] v :=
    ⟨⟨_, List.mem_cons_self, by decide +kernel, rfl⟩,
      List.forall_mem_singleton.mpr fun _ => .inl rfl⟩
  have hvars : ForLeaves vars := by decide +kernel
  have hunset : unset ["jwt", "secret"] vars = [] := by decide +kernel
  have hfinds : l.Finds look [] := by
    have hnone : l.layers.filterMap (textAt? look) = [] := by decide +kernel
    refine .layers rfl ?_
    rw [hnone]
    rfl
  have hread : (Toml.read? text).isSome = true := by decide +kernel
  have hshaped : ∀ d, Toml.read? text = some d → Shaped d := by decide +kernel
  have hsaid : ∀ d, Toml.read? text = some d →
      (saidBy? ["jwt", "secret"] d).bind asText? = some v := by decide +kernel
  have halone : ∀ d, Toml.read? text = some d → ∀ x ∈ Settings.leaves .layered,
      x.path ≠ ["jwt", "secret"] → saidBy? x.path d = none := by decide +kernel
  obtain ⟨document, hdocument⟩ := Option.isSome_iff_exists.mp hread
  have hfinds' : l'.Finds look [document] := .single rfl (by decide) rfl hdocument
  have hsetsText : SetsText document ["jwt", "secret"] v := by
    refine ⟨hshaped document hdocument, ?_, halone document hdocument⟩
    obtain ⟨w, hw, htext⟩ := Option.bind_eq_some_iff.mp (hsaid document hdocument)
    rw [hw, eq_text_of_asText? htext]
  have hshown : shown v = v := by decide +kernel
  have hothers : ∀ x ∈ Settings.leaves .layered, x.path ≠ ["jwt", "secret"] →
      (x.valueFrom? [] vars).isSome = true := by decide +kernel
  obtain ⟨hload, hthere, hfile, hkept⟩ := variables_keep_texts (List.mem_of_getElem? hleaf) hv hsets
    hfinds (List.forall_mem_nil _) hvars
  have hsame := (hfile hfinds' hsetsText).2 hshown.symm
  rw [hunset] at hsame
  obtain ⟨s, hs⟩ := hthere hothers
  have hsecret : s.jwt.secret = v := (hload s hs).trans hshown
  exact ⟨hv, hsets, hvars, hfinds, ⟨document, hfinds', hsetsText⟩, hkept.mp hshown, hsame, s, hs,
    hsecret⟩

theorem exists_of_toOption_map {ε A B : Type} {x : Except ε A} {f : A → B} {b : B}
    (h : x.toOption.map f = some b) : ∃ a, x = .ok a ∧ f a = b := by
  cases x with
  | ok a => exact ⟨a, rfl, Option.some.inj h⟩
  | error e => cases h

/-- A secret of 32 digits from a variable is another one, and too short. From a file it is kept. -/
theorem variable_changes_secret :
    let v := "00000000000000000000000000000042"
    let look (path : String) : Sighting :=
      if path = "config/local.toml" then
        .file "jwt.secret = '00000000000000000000000000000042'" else .missing
    let l : Loader := {}
    (∃ s, l.loadUnvalidated (fun _ => .missing) [("CRM_JWT__SECRET", v)] = .ok s ∧
      s.jwt.secret = "42" ∧ s.jwt.validate ≠ .ok ()) ∧
    (∃ s, l.loadUnvalidated look [] = .ok s ∧ s.jwt.secret = v ∧ s.jwt.validate = .ok ()) := by
  intro v look l
  have hvariable : (l.loadUnvalidated (fun _ => .missing) [("CRM_JWT__SECRET", v)]).toOption.map
      (·.jwt) = some { secret := "42" } := by
    decide +kernel
  have hfile : (l.loadUnvalidated look []).toOption.map (·.jwt) = some { secret := v } := by
    decide +kernel
  obtain ⟨s, hs, hjwt⟩ := exists_of_toOption_map hvariable
  obtain ⟨s', hs', hjwt'⟩ := exists_of_toOption_map hfile
  refine ⟨⟨s, hs, by rw [hjwt], by rw [hjwt]; decide⟩, ⟨s', hs', by rw [hjwt'], ?_⟩⟩
  rw [hjwt']
  decide

end Loader

end Cadence
