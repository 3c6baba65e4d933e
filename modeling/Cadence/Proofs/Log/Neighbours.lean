import Cadence.Proofs.Log.Fault

/-!
# What stands beside a log file

A directory may have other files than those of the log. A rotation leaves them as they are, with two
exceptions. The pruning takes every name for its own that begins with the stem of the log file and a
point, so a file of another kind under such a name may be removed. And the log file takes the place
of a file that has its new name already.
-/

namespace Cadence

namespace LogFolder

variable {d d' : LogFolder} {log n : String}

/-! ## Names of files set aside -/

def IsDigits (width : Nat) (s : String) : Prop :=
  s.toList.length = width ∧ ∀ c ∈ s.toList, c.isDigit = true

/-- A name under which a log file may be set aside: between its stem and its extension stand eight,
nine and four digits. -/
def IsRotatedName (log n : String) : Prop :=
  ∃ date time number mark, IsDigits 8 date ∧ IsDigits 9 time ∧ IsDigits 4 number ∧ IsPackMark mark ∧
    n = (nameParts log).1 ++ "." ++ (date ++ "_" ++ time ++ "_" ++ number) ++
      extensionOf log ++ mark

theorem isDigits_padded {width k : Nat} (hwidth : 0 < width) (hk : k < 10 ^ width) :
    IsDigits width (Text.padded width k) :=
  ⟨Text.length_padded hwidth hk, fun _ => Text.isDigit_of_mem_padded⟩

theorem isRotatedName_rotatedName {now : Instant} (hyear : now.HasFourDigitYear) (log : String)
    (sequence : Nat) {mark : String} (hmark : IsPackMark mark) :
    IsRotatedName log (rotatedName log now sequence ++ mark) := by
  refine ⟨Text.padded 8 now.dateNumber, Text.padded 9 now.timeNumber,
    Text.padded 4 (sequence % 10000), mark, isDigits_padded (by decide) hyear.dateNumber_lt,
    isDigits_padded (by decide) now.timeNumber_lt,
    isDigits_padded (by decide) (Nat.mod_lt _ (by decide)), hmark, ?_⟩
  rw [rotatedName_eq]
  unfold stamped stampOf
  rw [Stamp.writeCompact_eq hyear]

theorem IsRotatedName.length_le (h : IsRotatedName log n) :
    (nameParts log).1.toList.length + 24 ≤ n.toList.length := by
  obtain ⟨date, time, number, mark, ⟨hdate, -⟩, ⟨htime, -⟩, ⟨hnumber, -⟩, -, rfl⟩ := h
  have hpoint : ".".toList.length = 1 := rfl
  have hmark : "_".toList.length = 1 := rfl
  simp only [String.toList_append, List.length_append]
  omega

/-- All names that begin as those of the files set aside are such names. -/
def OnlyRotations (d : LogFolder) (log : String) : Prop :=
  ∀ n, d.entry? n ≠ none → isRotation log n = true → IsRotatedName log n

/-! ## Entries -/

theorem entry?_ne_none_iff : d.entry? n ≠ none ↔ n ∈ d.entries.map (·.1) := by
  unfold entry?
  constructor
  · intro hsome
    by_contra hnot
    exact hsome (lookup_eq_none hnot)
  · rw [Ne, List.lookup_eq_none_iff, List.mem_map]
    rintro ⟨e, he, rfl⟩ hnone
    simpa using hnone e he

theorem mem_of_entry? {e : LogEntry} (h : d.entry? n = some e) : (n, e) ∈ d.entries := by
  obtain ⟨before, behind, hentries, -⟩ := List.lookup_eq_some_iff.mp h
  simp [hentries]

theorem mem_rotations_iff : n ∈ d.rotations log ↔ d.entry? n ≠ none ∧ isRotation log n = true := by
  rw [rotations_eq, List.mem_filter, entry?_ne_none_iff]
  unfold names
  rw [List.mem_mergeSort]

theorem file?_congr (hentry : d'.entry? n = d.entry? n)
    (hfiles : ∀ id, d.entry? n = some (.file id) → d'.files[id]? = d.files[id]?) :
    d'.file? n = d.file? n := by
  unfold file?
  rw [hentry]
  split
  · rename_i id hid
    exact hfiles id hid
  · rfl

theorem folder_of_removeAll {refuses : FileOp → Bool} {names : List String} {all : Bool}
    (h : removeAll refuses names d = (all, d')) (hfolder : d.entry? n = some .folder) :
    d'.entry? n = some .folder := by
  induction names generalizing d with
  | nil =>
    cases h
    exact hfolder
  | cons m names ih =>
    rcases removeAll_cons h with ⟨⟨id, hfile⟩, h⟩ | ⟨-, rfl⟩
    · refine ih h ?_
      rw [entry?_without, if_neg, hfolder]
      rintro rfl
      rw [hfolder] at hfile
      cases hfile
    · exact hfolder

end LogFolder

namespace Rotator

variable {r r' : Rotator} {refuses : FileOp → Bool} {now : Instant} {log n : String}
  {d d' : LogFolder} {moved : Except LogError (Option String)}

/-! ## Setting the log file aside -/

/-- A name that is neither that of the log file nor one that it may be given. -/
def IsOther (r : Rotator) (now : Instant) (log n : String) : Prop :=
  n ≠ log ∧ n ≠ r.target now log ∧ n ≠ r.target now log ++ ".gz"

namespace Aside

theorem entry?_other (h : Aside r now log d moved r' d') (hn : r.IsOther now log n) :
    d'.entry? n = d.entry? n := by
  obtain ⟨hlog, htarget, hgz⟩ := hn
  have hrenamed {e : LogEntry} {d₁ : LogFolder} (hentry : d.entry? log = some e)
      (hrename : d.rename? log (r.target now log) = some d₁) : d₁.entry? n = d.entry? n := by
    rw [LogFolder.entry?_rename hentry hrename, if_neg htarget, if_neg hlog]
  cases h with
  | absent | refused => rfl
  | plain hentry hrename | unpacked hentry hrename => exact hrenamed hentry hrename
  | doubled hentry hrename hopens =>
    rw [hopens.entries, if_neg hgz]
    exact hrenamed hentry hrename
  | packed hentry hrename _ _ hopens =>
    rw [LogFolder.entry?_without, if_neg htarget, hopens.entries, if_neg hgz]
    exact hrenamed hentry hrename

theorem file?_other (h : Aside r now log d moved r' d') (hd : d.Sound)
    (hn : r.IsOther now log n) : d'.file? n = d.file? n := by
  refine LogFolder.file?_congr (h.entry?_other hn) fun id hid => ?_
  obtain ⟨hlog, htarget, hgz⟩ := hn
  have hopened {e : LogEntry} {d₁ d₂ : LogFolder} {packed : Nat} (hentry : d.entry? log = some e)
      (hrename : d.rename? log (r.target now log) = some d₁)
      (hopens : d₁.Opens (r.target now log ++ ".gz") packed d₂) : d₂.files[id]? = d.files[id]? := by
    have hfiles := LogFolder.files_rename hentry hrename
    have hid₁ : d₁.entry? n = some (.file id) := by
      rw [LogFolder.entry?_rename hentry hrename, if_neg htarget, if_neg hlog, hid]
    rw [hopens.files id (hfiles ▸ hd.files n id hid), hfiles]
    rintro rfl
    exact hgz ((hd.rename hentry hrename).1.eq_of_opens hopens hid₁)
  cases h with
  | absent | refused => rfl
  | plain hentry hrename | unpacked hentry hrename => rw [LogFolder.files_rename hentry hrename]
  | doubled hentry hrename hopens => exact hopened hentry hrename hopens
  | packed hentry hrename _ _ hopens =>
    have hsame := hopened hentry hrename hopens
    exact hsame

theorem entry?_folder (h : Aside r now log d moved r' d') (hlog : n ≠ log)
    (hfolder : d.entry? n = some .folder) : d'.entry? n = some .folder := by
  have hrenamed {e : LogEntry} {d₁ : LogFolder} (hentry : d.entry? log = some e)
      (hrename : d.rename? log (r.target now log) = some d₁) :
      n ≠ r.target now log ∧ d₁.entry? n = some .folder := by
    have htarget : n ≠ r.target now log := by
      rintro rfl
      unfold LogFolder.rename? at hrename
      rw [hentry, hfolder] at hrename
      cases hrename
    rw [LogFolder.entry?_rename hentry hrename, if_neg htarget, if_neg hlog]
    exact ⟨htarget, hfolder⟩
  have hopened {d₁ d₂ : LogFolder} {packed : String} {id : Nat} (hopens : d₁.Opens packed id d₂)
      (hfolder : d₁.entry? n = some .folder) : d₂.entry? n = some .folder := by
    rw [hopens.entries, if_neg, hfolder]
    rintro rfl
    have hfound := hopens.found
    rw [hfolder] at hfound
    rcases hfound with hfound | ⟨hfound, -⟩ <;> cases hfound
  cases h with
  | absent | refused => exact hfolder
  | plain hentry hrename | unpacked hentry hrename => exact (hrenamed hentry hrename).2
  | doubled hentry hrename hopens => exact hopened hopens (hrenamed hentry hrename).2
  | packed hentry hrename _ _ hopens =>
    obtain ⟨htarget, hfolder⟩ := hrenamed hentry hrename
    rw [LogFolder.entry?_without, if_neg htarget]
    exact hopened hopens hfolder

theorem new_names (h : Aside r now log d moved r' d') (hnone : d.entry? n = none)
    (hsome : d'.entry? n ≠ none) : n = r.target now log ∨ n = r.target now log ++ ".gz" := by
  by_cases hlog : n = log
  · -- Without a log file there is nothing to be done.
    subst hlog
    cases h with
    | absent | refused => exact absurd hnone hsome
    | plain hentry | unpacked hentry | doubled hentry | packed hentry =>
      rw [hnone] at hentry
      cases hentry
  · by_contra hnew
    rw [not_or] at hnew
    exact hsome ((h.entry?_other ⟨hlog, hnew⟩).trans hnone)

theorem new_name_unique (h : Aside r now log d moved r' d') (hok : ∃ x, moved = .ok x) :
    (∀ n, d.entry? n = none → d'.entry? n ≠ none → n = r.target now log) ∨
      ∀ n, d.entry? n = none → d'.entry? n ≠ none → n = r.target now log ++ ".gz" := by
  obtain ⟨x, rfl⟩ := hok
  cases h with
  | absent => exact .inl fun n hnone hsome => absurd hnone hsome
  | plain hentry hrename hplain =>
    refine .inl fun n hnone hsome => ?_
    by_contra htarget
    rw [LogFolder.entry?_rename hentry hrename, if_neg htarget] at hsome
    split at hsome
    · exact hsome rfl
    · exact hsome hnone
  | packed hentry hrename hcompress hfile hopens hpacked =>
    refine .inr fun n hnone hsome => ?_
    have hnew := (Aside.packed hentry hrename hcompress hfile hopens hpacked).new_names hnone hsome
    refine hnew.resolve_left ?_
    rintro rfl
    rw [LogFolder.entry?_without, if_pos rfl] at hsome
    exact hsome rfl

end Aside

theorem setAside_of_plain (hplain : r.rotation.compress = false)
    (h : r.setAside refuses now log d = (moved, r', d')) : d' = d ∨ ∃ x, moved = .ok x := by
  unfold setAside at h
  split at h
  · cases h
    exact .inl rfl
  · simp only [hplain] at h
    split at h
    · cases h
      exact .inr ⟨_, rfl⟩
    · cases h
      exact .inl rfl

theorem rotation_setAside (hd : d.Sound) (h : r.setAside refuses now log d = (moved, r', d')) :
    r'.rotation = r.rotation := by
  rcases (aside_setAside hd h).rotator with rfl | rfl <;> rfl

/-! ## Pruning -/

theorem mem_rotations_of_prune {all : Bool} (h : r.prune refuses log d = (all, d'))
    (hsome : d.entry? n ≠ none) (hnone : d'.entry? n = none) : n ∈ d.rotations log := by
  obtain ⟨gone, htaken, -, -, hentries⟩ := prune_cases h
  rw [hentries] at hnone
  split at hnone
  · rename_i hgone
    exact List.mem_of_mem_take (htaken.subset hgone)
  · exact absurd hnone hsome

theorem entry?_prune {all : Bool} (h : r.prune refuses log d = (all, d')) :
    d'.entry? n = none ∨ d'.entry? n = d.entry? n ∧ d'.file? n = d.file? n := by
  obtain ⟨gone, -, -, hfiles, hentries⟩ := prune_cases h
  by_cases hgone : n ∈ gone
  · exact .inl (by rw [hentries, if_pos hgone])
  · have hentry : d'.entry? n = d.entry? n := by rw [hentries, if_neg hgone]
    exact .inr ⟨hentry, LogFolder.file?_congr hentry fun _ _ => by rw [hfiles]⟩

theorem entry?_prune_all (hmax : r.rotation.maxFiles ≤ 1) (h : r.prune refuses log d = (true, d'))
    (hn : LogFolder.isRotation log n = true) : d'.entry? n = none := by
  obtain ⟨gone, -, hall, -, hentries⟩ := prune_cases h
  have hgone : gone = d.rotations log := by
    rw [hall rfl]
    unfold LogFolder.excess
    rw [Nat.sub_eq_zero_of_le hmax, Nat.sub_zero, List.take_length]
  rw [hentries, hgone]
  split
  · rfl
  · rename_i hnot
    rw [LogFolder.mem_rotations_iff] at hnot
    by_contra hsome
    exact hnot ⟨hsome, hn⟩

theorem prune_of_files (r : Rotator) (hrefuses : ∀ op, refuses op = false) (log : String)
    (hnames : (d.entries.map (·.1)).Nodup) (hfiles : ∀ e ∈ d.entries, e.2 ≠ .folder) :
    ∃ d', r.prune refuses log d = (true, d') := by
  have hnodup : (d.rotations log).Nodup := by
    rw [LogFolder.rotations_eq]
    exact List.Nodup.filter _ ((List.mergeSort_perm _ _).nodup_iff.mpr hnames)
  unfold prune
  simp only [hrefuses, Bool.false_eq_true, if_false]
  refine LogFolder.removeAll_of_files hrefuses (hnodup.sublist (List.take_sublist _ _))
    fun n hn => ?_
  have hentry := (LogFolder.mem_rotations_iff.mp (List.mem_of_mem_take hn)).1
  cases h : d.entry? n with
  | none => exact absurd h hentry
  | some e =>
    cases e with
    | file id => exact ⟨id, rfl⟩
    | folder => exact absurd rfl (hfiles _ (LogFolder.mem_of_entry? h))

/-! ## Rotations -/

/-- The directory after a rotation. -/
def folderAfter (r : Rotator) (refuses : FileOp → Bool) (now : Instant) (log : String)
    (d : LogFolder) : LogFolder :=
  (r.rotate refuses now log d).2.2

/-- The pruning of a rotation removes what has the name. -/
def Removes (r : Rotator) (refuses : FileOp → Bool) (now : Instant) (log : String) (d : LogFolder)
    (n : String) : Prop :=
  LogFolder.entry? (r.setAside refuses now log d).2.2 n ≠ none ∧
    LogFolder.entry? (r.folderAfter refuses now log d) n = none

/-- A rotation makes an entry of the name. -/
def Creates (r : Rotator) (refuses : FileOp → Bool) (now : Instant) (log : String) (d : LogFolder)
    (n : String) : Prop :=
  d.entry? n = none ∧ LogFolder.entry? (r.folderAfter refuses now log d) n ≠ none

/-- A rotation removes files set aside and no others, leaves all that it does not remove but the log
file, and makes one entry at most. -/
structure Spares (r : Rotator) (refuses : FileOp → Bool) (now : Instant) (log : String)
    (d : LogFolder) : Prop where
  removed : ∀ n, r.Removes refuses now log d n → LogFolder.IsRotatedName log n
  kept : ∀ n ≠ log, d.entry? n ≠ none → ¬ r.Removes refuses now log d n →
    LogFolder.entry? (r.folderAfter refuses now log d) n = d.entry? n ∧
      (r.folderAfter refuses now log d).file? n = d.file? n
  created : ∀ m n, r.Creates refuses now log d m → r.Creates refuses now log d n → m = n

/-- What a rotation does to any directory. -/
structure Frames (r : Rotator) (refuses : FileOp → Bool) (now : Instant) (log : String)
    (d : LogFolder) : Prop where
  removed : ∀ n, r.Removes refuses now log d n → LogFolder.isRotation log n = true
  kept : ∀ n, r.IsOther now log n → ¬ r.Removes refuses now log d n →
    LogFolder.entry? (r.folderAfter refuses now log d) n = d.entry? n ∧
      (r.folderAfter refuses now log d).file? n = d.file? n
  folders : ∀ n ≠ log, d.entry? n = some .folder →
    LogFolder.entry? (r.folderAfter refuses now log d) n = some .folder
  created : ∀ n, r.Creates refuses now log d n →
    n = r.target now log ∨ n = r.target now log ++ ".gz"

/-- A rotation sets the log file aside and, if that did not fail, prunes. -/
theorem rotate_cases (r : Rotator) (refuses : FileOp → Bool) (now : Instant) (log : String)
    (d : LogFolder) :
    ∃ moved r₁ d₁, r.setAside refuses now log d = (moved, r₁, d₁) ∧
      ((∃ e, moved = .error e ∧ r.rotate refuses now log d = (.error e, r₁, d₁)) ∨
        ∃ x all, moved = .ok x ∧
          r₁.prune refuses log d₁ = (all, r.folderAfter refuses now log d) ∧
          (r.rotate refuses now log d).1 = if all then .ok x else .error .io) := by
  unfold folderAfter rotate
  rcases hset : r.setAside refuses now log d with ⟨_ | x, r₁, d₁⟩
  · exact ⟨_, _, _, rfl, .inl ⟨_, rfl, rfl⟩⟩
  · refine ⟨_, _, _, rfl, .inr ⟨x, ?_⟩⟩
    rcases hprune : r₁.prune refuses log d₁ with ⟨_ | _, d₂⟩
    · exact ⟨false, rfl, by simp [hprune], by simp [hprune]⟩
    · exact ⟨true, rfl, by simp [hprune], by simp [hprune]⟩

theorem exists_aside (r : Rotator) (refuses : FileOp → Bool) (now : Instant) (log : String)
    (hd : d.Sound) :
    ∃ moved r₁ d₁, r.setAside refuses now log d = (moved, r₁, d₁) ∧ Aside r now log d moved r₁ d₁ ∧
      (∀ n, r.Removes refuses now log d n → n ∈ d₁.rotations log) ∧
      (∀ n, LogFolder.entry? (r.folderAfter refuses now log d) n = none ∨
        LogFolder.entry? (r.folderAfter refuses now log d) n = d₁.entry? n ∧
          (r.folderAfter refuses now log d).file? n = d₁.file? n) ∧
      ∀ n, d₁.entry? n = some .folder →
        LogFolder.entry? (r.folderAfter refuses now log d) n = some .folder := by
  obtain ⟨moved, r₁, d₁, hset, hcases⟩ := r.rotate_cases refuses now log d
  refine ⟨moved, r₁, d₁, hset, aside_setAside hd hset, ?_⟩
  unfold Removes
  rw [hset]
  rcases hcases with ⟨e, -, hrotate⟩ | ⟨x, all, -, hprune, -⟩
  · have hafter : r.folderAfter refuses now log d = d₁ := by
      unfold folderAfter
      rw [hrotate]
    rw [hafter]
    exact ⟨fun n ⟨hsome, hnone⟩ => absurd hnone hsome, fun n => .inr ⟨rfl, rfl⟩, fun n h => h⟩
  · refine ⟨fun n ⟨hsome, hnone⟩ => mem_rotations_of_prune hprune hsome hnone,
      fun n => entry?_prune hprune, fun n hfolder => ?_⟩
    unfold prune at hprune
    simp only at hprune
    split at hprune
    · cases hprune
      exact hfolder
    · exact LogFolder.folder_of_removeAll hprune hfolder

theorem frames (r : Rotator) (refuses : FileOp → Bool) (now : Instant) (log : String)
    (hd : d.Sound) : r.Frames refuses now log d := by
  obtain ⟨moved, r₁, d₁, hset, haside, hremoved, hleft, hfolders⟩ :=
    r.exists_aside refuses now log hd
  refine ⟨fun n h => (LogFolder.mem_rotations_iff.mp (hremoved n h)).2, fun n hn hstays => ?_,
    fun n hlog hfolder => hfolders n (haside.entry?_folder hlog hfolder), fun n hnew => ?_⟩
  · rw [← haside.entry?_other hn, ← haside.file?_other hd hn]
    rcases hleft n with hgone | hsame
    · -- What is not there at the end was not there before the pruning.
      have hnone : d₁.entry? n = none := by
        by_contra hsome
        exact hstays ⟨by rwa [hset], hgone⟩
      unfold LogFolder.file?
      rw [hgone, hnone]
      exact ⟨rfl, rfl⟩
    · exact hsame
  · rcases hleft n with hgone | ⟨hsame, -⟩
    · exact absurd hgone hnew.2
    · exact haside.new_names hnew.1 (hsame ▸ hnew.2)

/-- The names that the log file may be given are free. -/
def HasRoom (r : Rotator) (now : Instant) (log : String) (d : LogFolder) : Prop :=
  d.entry? (r.target now log) = none ∧ d.entry? (r.target now log ++ ".gz") = none

theorem isOther_or_isRotatedName (r : Rotator) (hyear : now.HasFourDigitYear)
    (hn : LogFolder.isRotation log n = true) :
    r.IsOther now log n ∨ LogFolder.IsRotatedName log n := by
  have hnew {mark : String} (hmark : LogFolder.IsPackMark mark) :
      LogFolder.IsRotatedName log (r.target now log ++ mark) :=
    LogFolder.isRotatedName_rotatedName hyear log _ hmark
  by_cases htarget : n = r.target now log
  · have hplain := hnew (.inl rfl)
    rw [String.append_empty] at hplain
    exact .inr (htarget ▸ hplain)
  · by_cases hgz : n = r.target now log ++ ".gz"
    · exact .inr (hgz ▸ hnew (.inr rfl))
    · exact .inl ⟨(LogFolder.ne_of_isRotation hn).symm, htarget, hgz⟩

theorem isRotatedName_of_removes (hd : d.Sound) (hyear : now.HasFourDigitYear)
    (honly : d.OnlyRotations log) (h : r.Removes refuses now log d n) :
    LogFolder.IsRotatedName log n := by
  obtain ⟨moved, r₁, d₁, -, haside, hremoved, -⟩ := r.exists_aside refuses now log hd
  obtain ⟨hentry, hn⟩ := LogFolder.mem_rotations_iff.mp (hremoved n h)
  rcases r.isOther_or_isRotatedName hyear hn with hother | hrotated
  · exact honly n (haside.entry?_other hother ▸ hentry) hn
  · exact hrotated

theorem of_rotate_ok {x : Option String} (h : (r.rotate refuses now log d).1 = .ok x) :
    ∃ r₁ d₁, r.setAside refuses now log d = (.ok x, r₁, d₁) ∧
      r₁.prune refuses log d₁ = (true, r.folderAfter refuses now log d) := by
  obtain ⟨moved, r₁, d₁, hset, ⟨e, -, hrotate⟩ | ⟨y, all, rfl, hprune, hanswer⟩⟩ :=
    r.rotate_cases refuses now log d
  · rw [hrotate] at h
    cases h
  · rw [h] at hanswer
    cases all <;> cases hanswer
    exact ⟨r₁, d₁, hset, hprune⟩

theorem creates_unique (hd : d.Sound)
    (hok : r.rotation.compress = false ∨ ∃ x, (r.rotate refuses now log d).1 = .ok x)
    {m : String} (hm : r.Creates refuses now log d m) (hn : r.Creates refuses now log d n) :
    m = n := by
  obtain ⟨moved, r₁, d₁, hset, haside, -, hleft, -⟩ := r.exists_aside refuses now log hd
  -- What is new at the end was new before the pruning.
  have hnew {k : String} (hk : r.Creates refuses now log d k) : d₁.entry? k ≠ none := by
    rcases hleft k with hgone | ⟨hsame, -⟩
    · exact absurd hgone hk.2
    · exact hsame ▸ hk.2
  have hmoved : d₁ = d ∨ ∃ x, moved = .ok x := by
    rcases hok with hplain | ⟨x, hanswer⟩
    · exact setAside_of_plain hplain hset
    · obtain ⟨r₂, d₂, hset', -⟩ := of_rotate_ok hanswer
      cases hset.symm.trans hset'
      exact .inr ⟨x, rfl⟩
  rcases hmoved with rfl | hmoved
  · exact absurd hm.1 (hnew hm)
  · rcases haside.new_name_unique hmoved with huniq | huniq <;>
      rw [huniq m hm.1 (hnew hm), huniq n hn.1 (hnew hn)]

theorem spares (hd : d.Sound) (hyear : now.HasFourDigitYear) (honly : d.OnlyRotations log)
    (hroom : r.HasRoom now log d)
    (hok : r.rotation.compress = false ∨ ∃ x, (r.rotate refuses now log d).1 = .ok x) :
    r.Spares refuses now log d where
  removed n h := isRotatedName_of_removes hd hyear honly h
  kept n hlog hsome hstays := by
    refine (r.frames refuses now log hd).kept n ⟨hlog, ?_, ?_⟩ hstays
    · rintro rfl
      exact hsome hroom.1
    · rintro rfl
      exact hsome hroom.2
  created m n hm hn := creates_unique hd hok hm hn

theorem removes_of_isRotation (hd : d.Sound) (hmax : r.rotation.maxFiles ≤ 1) {x : Option String}
    (hanswer : (r.rotate refuses now log d).1 = .ok x) (hother : r.IsOther now log n)
    (hsome : d.entry? n ≠ none) (hn : LogFolder.isRotation log n = true) :
    r.Removes refuses now log d n := by
  obtain ⟨r₁, d₁, hset, hprune⟩ := of_rotate_ok hanswer
  unfold Removes
  rw [hset]
  refine ⟨?_, entry?_prune_all (rotation_setAside hd hset ▸ hmax) hprune hn⟩
  rwa [(aside_setAside hd hset).entry?_other hother]

end Rotator

open Rotator

/-- A rotation does what it does to any directory. If all that begins as the files set aside is one
of them, and the new name is free, then it removes only such files, leaves the rest, and makes one
entry at most, unless the compression fails. Where nothing but the log file is to be kept, the first
of these is necessary. -/
theorem rotation_spares_neighbours {d : LogFolder} (hd : d.Sound) (r : Rotator)
    (refuses : FileOp → Bool) (now : Instant) (log : String) :
    r.Frames refuses now log d ∧
      (now.HasFourDigitYear →
        (d.OnlyRotations log → r.HasRoom now log d →
          (r.rotation.compress = false ∨ ∃ x, (r.rotate refuses now log d).1 = .ok x) →
          r.Spares refuses now log d) ∧
        ((∃ x, (r.rotate refuses now log d).1 = .ok x) → r.rotation.maxFiles ≤ 1 →
          ((∀ n, r.Removes refuses now log d n → LogFolder.IsRotatedName log n) ↔
            d.OnlyRotations log))) := by
  refine ⟨r.frames refuses now log hd, fun hyear => ⟨spares hd hyear, ?_⟩⟩
  rintro ⟨x, hanswer⟩ hmax
  constructor
  · intro hremoved n hsome hn
    rcases r.isOther_or_isRotatedName hyear hn with hother | hrotated
    · exact hremoved n (removes_of_isRotation hd hmax hanswer hother hsome hn)
    · exact hrotated
  · intro honly n h
    exact isRotatedName_of_removes hd hyear honly h

theorem rotation_spares_notes :
    let d : LogFolder :=
      ⟨[("app.log", .file 0), ("app.20250309_000000000_0001.log", .file 1), ("notes.txt", .file 2)],
        [⟨false, "new".toUTF8.toList⟩, ⟨false, "old".toUTF8.toList⟩, ⟨false, "text".toUTF8.toList⟩]⟩
    let r : Rotator := ⟨⟨true, 4, 1, false⟩, 0⟩
    let now : Instant := ⟨20157, 43200, 0, by decide, by decide, by decide, by decide⟩
    d.Sound ∧ now.HasFourDigitYear ∧ d.OnlyRotations "app.log" ∧ r.HasRoom now "app.log" d ∧
      ∀ refuses, r.Spares refuses now "app.log" d ∧
        (r.folderAfter refuses now "app.log" d).file? "notes.txt" =
          some ⟨false, "text".toUTF8.toList⟩ := by
  intro d r now
  let t : FileTree := .ofPaths [("d/app.log", "new"), ("d/app.20250309_000000000_0001.log", "old"),
    ("d/notes.txt", "text")]
  have hdir : LogFolder.makeIn? t ["d"] = some d := by
    unfold t d
    rfl
  have hd : d.Sound := LogFolder.sound_makeIn hdir
  have hyear : now.HasFourDigitYear := by decide
  have honly : d.OnlyRotations "app.log" := by
    intro n hsome hn
    rw [LogFolder.entry?_ne_none_iff] at hsome
    simp only [d, List.map_cons, List.map_nil, List.mem_cons, List.not_mem_nil, or_false] at hsome
    rcases hsome with rfl | rfl | rfl
    · exact absurd hn (by decide)
    · exact ⟨"20250309", "000000000", "0001", "", ⟨rfl, Text.forall_mem_of_all (by decide)⟩,
        ⟨rfl, Text.forall_mem_of_all (by decide)⟩, ⟨rfl, Text.forall_mem_of_all (by decide)⟩,
        .inl rfl, by decide⟩
    · exact absurd hn (by decide)
  have hroom : r.HasRoom now "app.log" d := ⟨by decide, by decide⟩
  refine ⟨hd, hyear, honly, hroom, fun refuses => ?_⟩
  obtain ⟨hframes, hspares⟩ := rotation_spares_neighbours hd r refuses now "app.log"
  refine ⟨(hspares hyear).1 honly hroom (.inl rfl), ?_⟩
  have hstays : ¬ r.Removes refuses now "app.log" d "notes.txt" := fun h =>
    absurd (hframes.removed _ h) (by decide)
  exact (hframes.kept _ ⟨by decide, by decide, by decide⟩ hstays).2

/-- A file of settings that has the stem of the log file is removed with the files set aside. -/
theorem rotation_removes_settings :
    let d : LogFolder := ⟨[("app.log", .file 0), ("app.toml", .file 1)],
      [⟨false, "full".toUTF8.toList⟩, ⟨false, "key = 1".toUTF8.toList⟩]⟩
    let r : Rotator := ⟨⟨true, 4, 1, false⟩, 0⟩
    let now : Instant := ⟨20157, 43200, 0, by decide, by decide, by decide, by decide⟩
    let refuses : FileOp → Bool := fun _ => false
    d.Sound ∧ r.HasRoom now "app.log" d ∧ (∃ x, (r.rotate refuses now "app.log" d).1 = .ok x) ∧
      r.Removes refuses now "app.log" d "app.toml" ∧
      ¬ LogFolder.IsRotatedName "app.log" "app.toml" ∧ ¬ r.Spares refuses now "app.log" d := by
  intro d r now refuses
  let t : FileTree := .ofPaths [("d/app.log", "full"), ("d/app.toml", "key = 1")]
  have hdir : LogFolder.makeIn? t ["d"] = some d := by
    unfold t d
    rfl
  have hd : d.Sound := LogFolder.sound_makeIn hdir
  have hnot : ¬ LogFolder.IsRotatedName "app.log" "app.toml" := fun h =>
    absurd h.length_le (by decide)
  have hanswer : ∃ x, (r.rotate refuses now "app.log" d).1 = .ok x := by
    obtain ⟨d₂, hprune⟩ : ∃ d₂, r.next.prune refuses "app.log"
        (r.setAside refuses now "app.log" d).2.2 = (true, d₂) :=
      prune_of_files _ (fun _ => rfl) _ (by decide) (by decide)
    have hset : r.setAside refuses now "app.log" d =
        (.ok (some "app.20250310_120000000_0001.log"), r.next,
          (r.setAside refuses now "app.log" d).2.2) := by
      unfold r d now refuses
      rfl
    unfold rotate
    rw [hset]
    simp only [hprune]
    exact ⟨_, rfl⟩
  have hremoves : r.Removes refuses now "app.log" d "app.toml" := by
    obtain ⟨x, hx⟩ := hanswer
    exact removes_of_isRotation hd (by decide) hx ⟨by decide, by decide, by decide⟩ (by decide)
      (by decide)
  exact ⟨hd, ⟨by decide, by decide⟩, hanswer, hremoves, hnot, fun h => hnot (h.removed _ hremoves)⟩

theorem rotation_replaces_file :
    let name := "app.20250310_120000000_0001.log"
    let d : LogFolder := ⟨[("app.log", .file 0), (name, .file 1)],
      [⟨false, "new".toUTF8.toList⟩, ⟨false, "old".toUTF8.toList⟩]⟩
    let r : Rotator := ⟨⟨true, 4, 5, false⟩, 0⟩
    let now : Instant := ⟨20157, 43200, 0, by decide, by decide, by decide, by decide⟩
    let refuses : FileOp → Bool := fun _ => false
    d.Sound ∧ (∃ x, (r.rotate refuses now "app.log" d).1 = .ok x) ∧
      d.file? name = some ⟨false, "old".toUTF8.toList⟩ ∧
      (r.folderAfter refuses now "app.log" d).file? name = some ⟨false, "new".toUTF8.toList⟩ ∧
      ¬ r.Spares refuses now "app.log" d := by
  intro name d r now refuses
  let d₁ : LogFolder := ⟨[(name, .file 0)],
    [⟨false, "new".toUTF8.toList⟩, ⟨false, "old".toUTF8.toList⟩]⟩
  have hdir : LogFolder.makeIn? (.ofPaths [("d/app.log", "new"),
      ("d/app.20250310_120000000_0001.log", "old")]) ["d"] = some d := by
    unfold d name
    rfl
  have hset : r.setAside refuses now "app.log" d = (.ok (some name), r.next, d₁) := by
    unfold r d now refuses d₁ name
    rfl
  have hrotate : r.rotate refuses now "app.log" d = (.ok (some name), r.next, d₁) := by
    unfold rotate
    rw [hset]
    simp only
    unfold prune
    rw [LogFolder.rotations_of_ascending (by decide)]
    unfold d₁ r refuses name
    rfl
  have hafter : r.folderAfter refuses now "app.log" d = d₁ := by
    unfold folderAfter
    rw [hrotate]
  refine ⟨LogFolder.sound_makeIn hdir, ⟨_, congrArg (·.1) hrotate⟩, rfl, by rw [hafter]; rfl,
    fun h => ?_⟩
  have hstays : ¬ r.Removes refuses now "app.log" d name := by
    rintro ⟨-, hnone⟩
    rw [hafter] at hnone
    cases hnone
  have hsame := (h.kept name (by decide) (by decide) hstays).1
  rw [hafter] at hsame
  cases hsame

end Cadence
