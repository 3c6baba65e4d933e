import Cadence.Proofs.Settings.Leaves
import Cadence.Proofs.Text.Split
import Cadence.Settings.Layers
import Mathlib.Data.List.Induction

/-!
# Documents on top of each other

What a document says at a path is found in it again after it was put on top of others; where it says
nothing, what was there stays. This needs that all documents have tables along the path and another
value at its end.
-/

namespace Cadence.Layers

open Toml DocumentKind

/-! ## Names with dots -/

/-- A value at the end of a path. -/
def nested (v : Value) : List String → List (String × Value)
  | [] => []
  | [name] => [(name, v)]
  | name :: path => [(name, .table (nested v path))]

/-- A document with tables in place of names with dots. -/
def expanded (document : List (String × Value)) : List (String × Value) :=
  document.flatMap fun (name, v) => nested v (pathOf name)

theorem setPath_eq (v : Value) (path : List String) (ms : List (String × Value)) :
    setPath v path ms = mergeMembers ms (nested v path) := by
  fun_induction setPath v path ms with
  | case1 ms => simp only [nested, mergeMembers]
  | case2 ms name => simp only [nested, mergeMembers]
  | case3 ms name path hpath ih => simp only [nested, mergeMembers, merge, ih]

theorem mergeMembers_append (below ms rest : List (String × Value)) :
    mergeMembers below (ms ++ rest) = mergeMembers (mergeMembers below ms) rest := by
  induction ms generalizing below with
  | nil => rw [List.nil_append, mergeMembers]
  | cons m ms ih =>
    obtain ⟨name, v⟩ := m
    rw [List.cons_append, mergeMembers, mergeMembers, ih]

theorem addDocument_eq (below document : List (String × Value)) :
    addDocument below document = mergeMembers below (expanded document) := by
  unfold addDocument expanded
  induction document generalizing below with
  | nil => rw [List.foldl_nil, List.flatMap_nil, mergeMembers]
  | cons m document ih =>
    obtain ⟨name, v⟩ := m
    rw [List.foldl_cons, ih, List.flatMap_cons, mergeMembers_append]
    dsimp only
    rw [setPath_eq]

/-! ## What a value says -/

/-- What a value says at a path; of members with one name the last that says something counts. -/
def said? : List String → Value → Option Value
  | [], v => some v
  | name :: path, .table ms =>
    ms.reverse.findSome? fun (n, v) => if n = name then said? path v else none
  | _ :: _, _ => none

/-- There are tables along the path, and another value at its end. -/
def Suits : List String → Value → Prop
  | [], v => ∀ ms, v ≠ .table ms
  | name :: path, .table ms => ∀ m ∈ ms, m.1 = name → Suits path m.2
  | _ :: _, _ => False

instance decSuits : (path : List String) → (v : Value) → Decidable (Suits path v)
  | [], .table ms => isFalse fun h => h ms rfl
  | [], .bool _ | [], .int _ | [], .float _ | [], .text _ | [], .array _ => isTrue nofun
  | name :: path, .table ms =>
    let _ := decSuits path
    inferInstanceAs (Decidable (∀ m ∈ ms, m.1 = name → Suits path m.2))
  | _ :: _, .bool _ | _ :: _, .int _ | _ :: _, .float _ | _ :: _, .text _ | _ :: _, .array _ =>
    isFalse id

/-! ## One value on top of another -/

theorem isTable_table (ms : List (String × Value)) : layered.IsTable (.table ms) ms := fun _ => rfl

theorem find?_table (name : String) (path : List String) (ms : List (String × Value)) :
    layered.find? (name :: path) (.table ms) = (ms.lookup name).bind (layered.find? path) :=
  (isTable_table ms).find? name path

theorem leads_table {name : String} {path : List String} {ms : List (String × Value)} :
    layered.Leads (name :: path) (.table ms) ↔
      ∀ w, ms.lookup name = some w → layered.Leads path w := by
  constructor
  · rintro ⟨ms', hms, h⟩
    cases hms []
    exact h
  · exact fun h => ⟨ms, isTable_table ms, h⟩

theorem lookup_membersOf (below : Option Value) (name : String) (path : List String) :
    ((membersOf below).lookup name).bind (layered.find? path) =
      below.bind (layered.find? (name :: path)) := by
  unfold membersOf
  split
  · rw [Option.bind_some, find?_table]
  · rename_i hnone
    cases below with
    | none => rfl
    | some v =>
      cases v with
      | table ms => exact absurd rfl (hnone ms)
      | array items => simp [DocumentKind.find?, layered, record?]
      | _ => rfl

theorem said?_cons (name : String) (path : List String) (m : String × Value)
    (ms : List (String × Value)) :
    said? (name :: path) (.table (m :: ms)) =
      (said? (name :: path) (.table ms)).or (if m.1 = name then said? path m.2 else none) := by
  simp only [said?, List.reverse_cons, List.findSome?_append, List.findSome?_singleton]

theorem find?_merge {path : List String} {v : Value} (h : Suits path v) (below : Option Value) :
    layered.find? path (merge below v) = (said? path v).or (below.bind (layered.find? path)) := by
  induction path generalizing v below with
  | nil =>
    cases v with
    | table ms => exact absurd rfl (h ms)
    | _ => rfl
  | cons name path ih =>
    cases v with
    | table ms =>
      -- One level down the path, the members of the table on top come one after the other.
      have hmembers : ∀ bms, ((mergeMembers bms ms).lookup name).bind (layered.find? path) =
          (said? (name :: path) (.table ms)).or ((bms.lookup name).bind (layered.find? path)) := by
        unfold Suits at h
        induction ms with
        | nil =>
          intro bms
          rw [mergeMembers]
          rfl
        | cons m ms ihms =>
          obtain ⟨n, w⟩ := m
          intro bms
          rw [List.forall_mem_cons] at h
          rw [mergeMembers, ihms h.2, said?_cons, lookup_put, Option.or_assoc]
          by_cases hn : n = name
          · rw [if_pos hn.symm, if_pos hn, Option.bind_some, ih (h.1 hn), hn]
          · rw [if_neg (Ne.symm hn), if_neg hn, Option.none_or]
      rw [merge, find?_table, hmembers, lookup_membersOf]
    | _ => exact h.elim

theorem leads_merge {path : List String} {v : Value} (h : Suits path v) {below : Option Value}
    (hbelow : ∀ b, below = some b → layered.Leads path b) : layered.Leads path (merge below v) := by
  induction path generalizing v below with
  | nil => trivial
  | cons name path ih =>
    cases v with
    | table ms =>
      have hmembers : ∀ bms, (∀ w, bms.lookup name = some w → layered.Leads path w) →
          ∀ w, (mergeMembers bms ms).lookup name = some w → layered.Leads path w := by
        unfold Suits at h
        -- The members go in one by one, and whatever stands at the name leads on each time.
        induction ms with
        | nil =>
          intro bms hbms
          rwa [mergeMembers]
        | cons m ms ihms =>
          obtain ⟨n, w⟩ := m
          intro bms hbms
          rw [List.forall_mem_cons] at h
          rw [mergeMembers]
          refine ihms h.2 _ fun u hu => ?_
          rw [lookup_put] at hu
          split at hu
          · rename_i hn
            cases hu
            exact ih (h.1 hn.symm) fun b hb => hbms b (hn ▸ hb)
          · exact hbms u hu
      rw [merge]
      refine leads_table.mpr (hmembers _ fun w hw => ?_)
      unfold membersOf at hw
      split at hw
      · exact leads_table.mp (hbelow _ rfl) w hw
      · cases hw
    | _ => exact h.elim

/-! ## Values at the end of a path -/

theorem said?_append (name : String) (path : List String) (ms rest : List (String × Value)) :
    said? (name :: path) (.table (ms ++ rest)) =
      (said? (name :: path) (.table rest)).or (said? (name :: path) (.table ms)) := by
  simp only [said?, List.reverse_append, List.findSome?_append]

/-- Neither path leads on where the other one ends. -/
def Apart (path other : List String) : Prop := other <+: path ∨ path <+: other → other = path

instance (path other : List String) : Decidable (Apart path other) :=
  inferInstanceAs (Decidable (other <+: path ∨ path <+: other → other = path))

theorem Apart.of_cons {name : String} {path other : List String}
    (h : Apart (name :: path) (name :: other)) : Apart path other := by
  intro hprefix
  have hcons : name :: other <+: name :: path ∨ name :: path <+: name :: other := by
    rwa [List.prefix_cons_inj, List.prefix_cons_inj]
  exact (List.cons.inj (h hcons)).2

theorem suits_append {name : String} {path : List String} {ms rest : List (String × Value)} :
    Suits (name :: path) (.table (ms ++ rest)) ↔
      Suits (name :: path) (.table ms) ∧ Suits (name :: path) (.table rest) := by
  simp only [Suits, List.forall_mem_append]

theorem said?_singleton (name : String) (path : List String) (m : String × Value) :
    said? (name :: path) (.table [m]) = if m.1 = name then said? path m.2 else none := by
  simp only [said?, List.reverse_singleton, List.findSome?_singleton]

theorem suits_singleton {name : String} {path : List String} {m : String × Value} :
    Suits (name :: path) (.table [m]) ↔ (m.1 = name → Suits path m.2) := by
  simp only [Suits, List.mem_singleton, forall_eq]

theorem said?_nested {v : Value} (hv : ∀ ms, v ≠ .table ms) {path other : List String}
    (hpath : path ≠ []) (h : Apart path other) :
    said? path (.table (nested v other)) = (if other = path then some v else none) ∧
      Suits path (.table (nested v other)) := by
  obtain ⟨name, path, rfl⟩ := List.exists_cons_of_ne_nil hpath
  clear hpath
  fun_induction nested v other generalizing name path with
  | case1 => exact ⟨rfl, nofun⟩
  | case2 a =>
    rw [said?_singleton, suits_singleton]
    by_cases ha : a = name
    · -- The value stands here, so that the path ends here, too.
      subst ha
      have hend : [a] = a :: path := h (.inl (List.prefix_cons_inj a |>.mpr (List.nil_prefix)))
      obtain ⟨-, rfl⟩ := List.cons.inj hend
      rw [if_pos rfl, if_pos rfl]
      exact ⟨rfl, fun _ => hv⟩
    · rw [if_neg ha, if_neg fun hsame => ha (List.cons.inj hsame).1]
      exact ⟨rfl, fun hsame => absurd hsame ha⟩
  | case3 a other hother ih =>
    rw [said?_singleton, suits_singleton]
    by_cases ha : a = name
    · -- Both paths lead on.
      subst ha
      cases path with
      | nil =>
        have hend : a :: other = [a] := h (.inr (List.prefix_cons_inj a |>.mpr List.nil_prefix))
        exact absurd (List.cons.inj hend).2 hother
      | cons b path =>
        obtain ⟨hsaid, hsuits⟩ := ih b path h.of_cons
        rw [if_pos rfl, hsaid]
        refine ⟨?_, fun _ => hsuits⟩
        by_cases hsame : other = b :: path
        · rw [if_pos hsame, if_pos (congrArg _ hsame)]
        · rw [if_neg hsame, if_neg fun h => hsame (List.cons.inj h).2]
    · rw [if_neg ha, if_neg fun hsame => ha (List.cons.inj hsame).1]
      exact ⟨rfl, fun hsame => absurd hsame ha⟩

/-! ## Documents on top of each other -/

/-- What a document says at a path. -/
def saidBy? (path : List String) (document : List (String × Value)) : Option Value :=
  said? path (.table (expanded document))

/-- What the topmost document says that says something. -/
def topmost? (path : List String) (documents : List (List (String × Value))) : Option Value :=
  documents.reverse.findSome? (saidBy? path)

variable {path : List String} {documents : List (List (String × Value))}

theorem topmost?_snoc (path : List String) (documents : List (List (String × Value)))
    (document : List (String × Value)) :
    topmost? path (documents ++ [document]) =
      (saidBy? path document).or (topmost? path documents) := by
  unfold topmost?
  rw [List.reverse_append, List.reverse_singleton, List.singleton_append, List.findSome?_cons]
  cases saidBy? path document <;> simp

/-- The documents come to what the topmost one says that says something. -/
theorem find?_addDocuments (hpath : path ≠ [])
    (h : ∀ d ∈ documents, Suits path (.table (expanded d))) :
    layered.find? path (.table (documents.foldl addDocument [])) = topmost? path documents ∧
      layered.Leads path (.table (documents.foldl addDocument [])) := by
  induction documents using List.reverseRecOn with
  | nil =>
    obtain ⟨name, path, rfl⟩ := List.exists_cons_of_ne_nil hpath
    exact ⟨rfl, leads_table.mpr nofun⟩
  | append_singleton documents document ih =>
    obtain ⟨hfind, hleads⟩ := ih fun d hd => h d (List.mem_append_left _ hd)
    have hsuits := h document (List.mem_append_right _ List.mem_cons_self)
    have hmerged : Value.table ((documents ++ [document]).foldl addDocument []) =
        merge (some (.table (documents.foldl addDocument []))) (.table (expanded document)) := by
      rw [List.foldl_append, List.foldl_cons, List.foldl_nil, addDocument_eq, merge]
      rfl
    rw [hmerged, find?_merge hsuits, Option.bind_some, hfind]
    refine ⟨(topmost?_snoc path documents document).symm, leads_merge hsuits ?_⟩
    rintro b ⟨⟩
    exact hleads

end Cadence.Layers
