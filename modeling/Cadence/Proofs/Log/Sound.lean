import Cadence.Log.Writer
import Cadence.Proofs.Log.Folder

/-!
# Directories whose files have one name each

What the operations on a directory leave of its names and files, one name at a time. A directory of
a file tree is sound, and the operations keep it so. A file that has lost its name does not get one
again.
-/

namespace Cadence.LogFolder

/-- The names lead to files that are there, and each file has one name at most. -/
structure Sound (d : LogFolder) : Prop where
  files : ∀ n id, d.entry? n = some (.file id) → id < d.files.length
  single : ∀ m n id, d.entry? m = some (.file id) → d.entry? n = some (.file id) → m = n

/-- The file has a name. -/
def HasName (d : LogFolder) (id : Nat) : Prop := ∃ n, d.entry? n = some (.file id)

/-- Some bytes, one after the other, can be read in the file of a name. -/
def Holds (d : LogFolder) (n : String) (bytes : List UInt8) : Prop :=
  ∃ f, d.file? n = some f ∧ bytes <:+: f.bytes

/-- No file is gone, and those without a name have none. -/
structure Follows (d' d : LogFolder) : Prop where
  length : d.files.length ≤ d'.files.length
  named : ∀ id < d.files.length, d'.HasName id → d.HasName id

variable {d d' d'' : LogFolder} {name n : String} {id : Nat} {bytes : List UInt8}

theorem Follows.refl (d : LogFolder) : d.Follows d := ⟨Nat.le_refl _, fun _ _ h => h⟩

theorem Follows.trans (h : d''.Follows d') (h' : d'.Follows d) : d''.Follows d where
  length := Nat.le_trans h'.length h.length
  named id hid hname := h'.named id hid (h.named id (Nat.lt_of_lt_of_le hid h'.length) hname)

theorem holds_iff : d.Holds n bytes ↔
    ∃ id f, d.entry? n = some (.file id) ∧ d.files[id]? = some f ∧ bytes <:+: f.bytes := by
  constructor
  · rintro ⟨f, hfile, hbytes⟩
    obtain ⟨id, hentry, hread⟩ := file?_eq_some hfile
    exact ⟨id, f, hentry, hread, hbytes⟩
  · rintro ⟨id, f, hentry, hread, hbytes⟩
    refine ⟨f, ?_, hbytes⟩
    unfold file?
    rw [hentry]
    exact hread

theorem Holds.moved {m : String} (h : d.Holds n bytes) (hentry : d'.entry? m = d.entry? n)
    (hfile : ∀ id, d.entry? n = some (.file id) → d'.files[id]? = d.files[id]?) :
    d'.Holds m bytes := by
  obtain ⟨id, f, hid, hread, hbytes⟩ := holds_iff.mp h
  exact holds_iff.mpr ⟨id, f, hentry.trans hid, (hfile id hid).trans hread, hbytes⟩

/-! ## Names after an operation -/

theorem entry?_append (entries : List (String × LogEntry)) (files : List LogFile) (e : LogEntry) :
    LogFolder.entry? ⟨entries ++ [(name, e)], files⟩ n =
      (LogFolder.entry? ⟨entries, files⟩ n).or (if n = name then some e else none) := by
  unfold entry?
  rw [List.lookup_append, List.lookup_cons]
  by_cases hname : n = name
  · rw [if_pos hname, beq_iff_eq.mpr hname]
  · rw [if_neg hname, beq_eq_false_iff_ne.mpr hname]
    rfl

theorem entry?_rename {old new : String} {e : LogEntry} (hentry : d.entry? old = some e)
    (h : d.rename? old new = some d') (n : String) :
    d'.entry? n = if n = new then some e else if n = old then none else d.entry? n := by
  rw [rename?_eq_some hentry h, entry?_append]
  change (LogFolder.entry? ((d.without old).without new) n).or _ = _
  rw [entry?_without, entry?_without]
  by_cases hnew : n = new
  · simp [hnew]
  · simp [hnew]

theorem files_rename {old new : String} {e : LogEntry} (hentry : d.entry? old = some e)
    (h : d.rename? old new = some d') : d'.files = d.files := by
  rw [rename?_eq_some hentry h]

theorem openFile?_eq_some {keep : Bool} (h : d.openFile? name keep = some (id, d')) :
    d.entry? name = some (.file id) ∧ d' = (if keep then d else d.setFile id {}) ∨
      d.entry? name = none ∧ id = d.files.length ∧
        d' = ⟨d.entries ++ [(name, .file id)], d.files ++ [LogFile.mk false []]⟩ := by
  cases hentry : d.entry? name with
  | none =>
    obtain ⟨rfl, rfl⟩ := openFile?_of_none hentry h
    exact .inr ⟨rfl, rfl, rfl⟩
  | some e =>
    unfold openFile? at h
    rw [hentry] at h
    cases e with
    | file id' =>
      cases h
      exact .inl ⟨rfl, rfl⟩
    | folder => cases h

/-- A file was opened under a name, and whatever it holds may be new. -/
structure Opens (d : LogFolder) (name : String) (id : Nat) (d' : LogFolder) : Prop where
  entries : ∀ n, d'.entry? n = if n = name then some (.file id) else d.entry? n
  files : ∀ i < d.files.length, i ≠ id → d'.files[i]? = d.files[i]?
  length : d.files.length ≤ d'.files.length
  range : id < d'.files.length
  found : d.entry? name = some (.file id) ∨ d.entry? name = none ∧ id = d.files.length

theorem Opens.setFile (h : d.Opens name id d') (f : LogFile) :
    d.Opens name id (d'.setFile id f) where
  entries := h.entries
  files i hi hne := (List.getElem?_set_ne hne.symm).trans (h.files i hi hne)
  length := Nat.le_trans h.length (Nat.le_of_eq List.length_set.symm)
  range := Nat.lt_of_lt_of_eq h.range List.length_set.symm
  found := h.found

theorem Sound.opens_openFile (hd : d.Sound) {keep : Bool}
    (h : d.openFile? name keep = some (id, d')) : d.Opens name id d' := by
  rcases openFile?_eq_some h with ⟨hentry, rfl⟩ | ⟨hnone, rfl, rfl⟩
  · have hself : d.Opens name id d := {
      entries := fun n => by
        by_cases hname : n = name
        · rw [if_pos hname, hname, hentry]
        · rw [if_neg hname]
      files := fun _ _ _ => rfl
      length := Nat.le_refl _
      range := hd.files name id hentry
      found := .inl hentry }
    cases keep with
    | true => exact hself
    | false => exact hself.setFile _
  · refine ⟨fun n => ?_, fun i hi _ => List.getElem?_append_left hi, ?_, ?_, .inr ⟨hnone, rfl⟩⟩
    · rw [entry?_append]
      change (d.entry? n).or _ = _
      by_cases hname : n = name
      · rw [hname, hnone, if_pos rfl]
        rfl
      · rw [if_neg hname, if_neg hname, Option.or_none]
    · rw [List.length_append]
      exact Nat.le_add_right _ _
    · rw [List.length_append]
      exact Nat.lt_succ_self _

theorem removeAll_cases {refuses : FileOp → Bool} {names : List String} {all : Bool}
    (h : removeAll refuses names d = (all, d')) :
    ∃ gone rest, names = gone ++ rest ∧ (all = true ↔ rest = []) ∧ d'.files = d.files ∧
      ∀ n, d'.entry? n = if n ∈ gone then none else d.entry? n := by
  induction names generalizing d with
  | nil =>
    cases h
    exact ⟨[], [], rfl, iff_of_true rfl rfl, rfl, fun n => (if_neg List.not_mem_nil).symm⟩
  | cons m names ih =>
    rcases removeAll_cons h with ⟨-, h⟩ | ⟨rfl, rfl⟩
    · obtain ⟨gone, rest, hnames, hall, hfiles, hentries⟩ := ih h
      refine ⟨m :: gone, rest, by rw [hnames, List.cons_append], hall, hfiles, fun n => ?_⟩
      rw [hentries, entry?_without]
      by_cases hm : n = m <;> simp [hm]
    · exact ⟨[], m :: names, rfl, iff_of_false Bool.false_ne_true (List.cons_ne_nil _ _), rfl,
        fun n => (if_neg List.not_mem_nil).symm⟩

/-! ## What is kept -/

theorem Sound.shrink (h : d.Sound) (hlength : d.files.length ≤ d'.files.length)
    (hentries : ∀ n id, d'.entry? n = some (.file id) → d.entry? n = some (.file id)) :
    d'.Sound ∧ d'.Follows d where
  left := {
    files := fun n id hn => Nat.lt_of_lt_of_le (h.files n id (hentries n id hn)) hlength
    single := fun m n id hm hn => h.single m n id (hentries m id hm) (hentries n id hn) }
  right := ⟨hlength, fun id _ hname => hname.imp fun n => hentries n id⟩

theorem Sound.without (h : d.Sound) (name : String) :
    LogFolder.Sound (d.without name) ∧ LogFolder.Follows (d.without name) d := by
  refine h.shrink (Nat.le_refl _) fun n id hn => ?_
  rw [entry?_without] at hn
  split at hn
  · cases hn
  · exact hn

theorem Sound.setFile (h : d.Sound) (id : Nat) (f : LogFile) :
    (d.setFile id f).Sound ∧ (d.setFile id f).Follows d :=
  h.shrink (Nat.le_of_eq List.length_set.symm) fun _ _ hn => hn

theorem Sound.write (h : d.Sound) (id : Nat) (place : Option Nat) (bytes : List UInt8) :
    (d.write id place bytes).Sound ∧ (d.write id place bytes).Follows d :=
  h.shrink (Nat.le_of_eq (List.length_modify ..).symm) fun _ _ hn => hn

theorem Sound.rename {old new : String} {e : LogEntry} (h : d.Sound)
    (hentry : d.entry? old = some e) (hrun : d.rename? old new = some d') :
    d'.Sound ∧ d'.Follows d := by
  have hentries := entry?_rename hentry hrun
  have hfiles := files_rename hentry hrun
  -- The name under which a file was found before.
  have hbefore {n : String} {id : Nat} (hn : d'.entry? n = some (.file id)) :
      d.entry? (if n = new then old else n) = some (.file id) ∧ (n ≠ new → n ≠ old) := by
    rw [hentries] at hn
    by_cases hnew : n = new
    · rw [if_pos hnew] at hn ⊢
      exact ⟨hentry.trans hn, fun hne => absurd hnew hne⟩
    · rw [if_neg hnew] at hn ⊢
      by_cases hold : n = old
      · rw [if_pos hold] at hn
        cases hn
      · rw [if_neg hold] at hn
        exact ⟨hn, fun _ => hold⟩
  refine ⟨⟨fun n id hn => ?_, fun m n id hm hn => ?_⟩, ⟨Nat.le_of_eq (by rw [hfiles]), ?_⟩⟩
  · rw [hfiles]
    exact h.files _ id (hbefore hn).1
  · obtain ⟨hm, hmold⟩ := hbefore hm
    obtain ⟨hn, hnold⟩ := hbefore hn
    have hsame := h.single _ _ id hm hn
    by_cases hmnew : m = new <;> by_cases hnnew : n = new
    · rw [hmnew, hnnew]
    · rw [if_pos hmnew, if_neg hnnew] at hsame
      exact absurd hsame.symm (hnold hnnew)
    · rw [if_neg hmnew, if_pos hnnew] at hsame
      exact absurd hsame (hmold hmnew)
    · rwa [if_neg hmnew, if_neg hnnew] at hsame
  · rintro id - ⟨n, hn⟩
    exact ⟨_, (hbefore hn).1⟩

theorem Opens.cases (h : d.Opens name id d') {i : Nat} (hn : d'.entry? n = some (.file i)) :
    n = name ∧ i = id ∨ n ≠ name ∧ d.entry? n = some (.file i) := by
  rw [h.entries] at hn
  by_cases hname : n = name
  · rw [if_pos hname] at hn
    cases hn
    exact .inl ⟨hname, rfl⟩
  · rw [if_neg hname] at hn
    exact .inr ⟨hname, hn⟩

theorem Sound.eq_of_opens (hd : d.Sound) (h : d.Opens name id d')
    (hn : d.entry? n = some (.file id)) : n = name := by
  rcases h.found with hfound | ⟨-, rfl⟩
  · exact hd.single n name id hn hfound
  · exact absurd (hd.files n _ hn) (Nat.lt_irrefl _)

theorem Sound.opens (hd : d.Sound) (h : d.Opens name id d') : d'.Sound ∧ d'.Follows d := by
  refine ⟨⟨fun n i hn => ?_, fun m n i hm hn => ?_⟩, ⟨h.length, ?_⟩⟩
  · rcases h.cases hn with ⟨-, rfl⟩ | ⟨-, hn⟩
    · exact h.range
    · exact Nat.lt_of_lt_of_le (hd.files n i hn) h.length
  · rcases h.cases hm with ⟨rfl, rfl⟩ | ⟨hmname, hm⟩ <;>
      rcases h.cases hn with ⟨rfl, hi⟩ | ⟨hnname, hn⟩
    · rfl
    · exact absurd (hd.eq_of_opens h hn) hnname
    · exact absurd (hd.eq_of_opens h (hi ▸ hm)) hmname
    · exact hd.single m n i hm hn
  · rintro i hi ⟨n, hn⟩
    rcases h.cases hn with ⟨-, rfl⟩ | ⟨-, hn⟩
    · rcases h.found with hfound | ⟨-, rfl⟩
      · exact ⟨name, hfound⟩
      · exact absurd hi (Nat.lt_irrefl _)
    · exact ⟨n, hn⟩

theorem Holds.opens (h : d.Holds n bytes) (hd : d.Sound) (hopens : d.Opens name id d')
    (hne : n ≠ name) : d'.Holds n bytes := by
  refine h.moved ?_ fun i hi => ?_
  · rw [hopens.entries, if_neg hne]
  · refine hopens.files i (hd.files n i hi) ?_
    rintro rfl
    exact hne (hd.eq_of_opens hopens hi)

theorem Holds.rename {old new : String} {e : LogEntry} (h : d.Holds n bytes)
    (hentry : d.entry? old = some e) (hrun : d.rename? old new = some d') (hne : n ≠ new) :
    d'.Holds (if n = old then new else n) bytes := by
  have hfiles := files_rename hentry hrun
  by_cases hold : n = old
  · rw [if_pos hold]
    refine h.moved ?_ fun _ _ => by rw [hfiles]
    rw [entry?_rename hentry hrun, if_pos rfl, hold, hentry]
  · rw [if_neg hold]
    refine h.moved ?_ fun _ _ => by rw [hfiles]
    rw [entry?_rename hentry hrun, if_neg hne, if_neg hold]

theorem Holds.without (h : d.Holds n bytes) (hne : n ≠ name) :
    LogFolder.Holds (d.without name) n bytes :=
  h.moved (by rw [entry?_without, if_neg hne]) fun _ _ => rfl

/-! ## Directories of a tree -/

theorem sound_empty : Sound {} := ⟨nofun, nofun⟩

theorem Sound.put (h : d.Sound) (hrun : d.put? name bytes = some d') : d'.Sound := by
  obtain ⟨⟨id, d₁⟩, hopen, rfl⟩ := Option.map_eq_some_iff.mp hrun
  exact ((h.opens (h.opens_openFile hopen)).1.setFile id _).1

theorem Sound.addFolder (h : d.Sound) (name : String) :
    Sound { d.without name with entries := (d.without name).entries ++ [(name, .folder)] } := by
  refine And.left ((h.without name).1.shrink (Nat.le_refl _) fun n id hn => ?_)
  rw [entry?_append] at hn
  rcases Option.or_eq_some_iff.mp hn with hn | ⟨-, hn⟩
  · exact hn
  · split at hn <;> cases hn

theorem sound_ofTree {t : FileTree} {place : List String} (h : ofTree? t place = some d) :
    d.Sound := by
  unfold ofTree? at h
  obtain ⟨-, h⟩ := Option.ite_none_right_eq_some.mp h
  obtain rfl := Option.some.inj h
  apply List.foldlRecOn
  · apply List.foldlRecOn
    · exact sound_empty
    · rintro d hd ⟨_ | ⟨n, _ | ⟨m, rest⟩⟩, text⟩ -
      · exact hd
      · cases hput : d.put? n text.toUTF8.toList with
        | none =>
          simp only [hput]
          exact hd
        | some d' =>
          simp only [hput]
          exact hd.put hput
      · exact hd.addFolder n
  · rintro d hd ⟨_ | ⟨n, rest⟩, -⟩ -
    · exact hd
    · exact hd.addFolder n

theorem sound_makeIn {t : FileTree} {place : List String} (h : makeIn? t place = some d) :
    d.Sound := by
  unfold makeIn? at h
  obtain ⟨-, h⟩ := Option.ite_none_left_eq_some.mp h
  cases htree : ofTree? t place with
  | none =>
    rw [htree] at h
    cases h
    exact sound_empty
  | some d₁ =>
    rw [htree] at h
    cases h
    exact sound_ofTree htree

end Cadence.LogFolder
