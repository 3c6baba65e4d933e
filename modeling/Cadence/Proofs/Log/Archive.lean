import Cadence.Proofs.Log.Folder
import Cadence.Proofs.Log.Names

/-!
# The files set aside

What a directory has of a log besides the log file itself: the files that were set aside, in the
order of their names. Setting the log file aside puts one more at the end, and pruning takes some
away from the front.
-/

namespace Cadence

namespace LogFolder

/-- The entries that are taken for files set aside. -/
def setAsides (d : LogFolder) (log : String) : List (String × LogEntry) :=
  d.entries.filter fun e => isRotation log e.1

variable {d : LogFolder} {log n : String}

theorem setAsides_without (d : LogFolder) (log n : String) :
    (d.without n).setAsides log = (d.setAsides log).filter (·.1 != n) := by
  unfold setAsides without
  rw [List.filter_comm]

theorem setAsides_append (entries : List (String × LogEntry)) (files : List LogFile)
    (log n : String) (e : LogEntry) :
    setAsides ⟨entries ++ [(n, e)], files⟩ log =
      entries.filter (fun e => isRotation log e.1) ++
        if isRotation log n then [(n, e)] else [] := by
  unfold setAsides
  rw [List.filter_append, List.filter_singleton, cond_eq_ite]

theorem entry?_of_isRotation (h : isRotation log n = true) :
    d.entry? n = (d.setAsides log).lookup n := by
  unfold entry? setAsides
  rw [lookup_filter, if_pos h]

theorem rotations_of_ascending (h : ((d.setAsides log).map (·.1)).Pairwise (· < ·)) :
    d.rotations log = (d.setAsides log).map (·.1) := by
  have hnames : (d.setAsides log).map (·.1) = (d.entries.map (·.1)).filter (isRotation log) := by
    unfold setAsides
    rw [List.filter_map]
    rfl
  have hsorted : d.names.Pairwise fun m n => decide (m ≤ n) = true :=
    List.pairwise_mergeSort (fun _ _ _ => by simpa using String.le_trans)
      (fun m n => by simpa using String.le_total m n) _
  have hascends : ((d.setAsides log).map (·.1)).Pairwise (· ≤ ·) := h.imp le_of_lt
  rw [rotations_eq]
  refine List.Perm.eq_of_pairwise (fun _ _ _ _ => String.le_antisymm)
    ((hsorted.imp of_decide_eq_true).filter _) hascends ?_
  rw [hnames]
  exact (List.mergeSort_perm _ _).filter _

theorem setAsides_eq_nil (h : d.rotations log = []) : d.setAsides log = [] := by
  rw [rotations_eq, List.filter_eq_nil_iff] at h
  unfold setAsides
  rw [List.filter_eq_nil_iff]
  exact fun e he => h e.1 (List.mem_mergeSort.mpr (List.mem_map_of_mem he))

theorem entry?_of_last {before : List (String × LogEntry)} {e : LogEntry}
    (h : isRotation log n = true) (hentries : d.setAsides log = before ++ [(n, e)])
    (hbefore : ∀ x ∈ before, n ≠ x.1) : d.entry? n = some e := by
  rw [entry?_of_isRotation h, hentries, List.lookup_append,
    List.lookup_eq_none_iff.mpr fun x hx => bne_iff_ne.mpr (hbefore x hx)]
  exact List.lookup_cons_self

theorem entry?_of_free (h : isRotation log n = true) (hfree : ∀ x ∈ d.setAsides log, n ≠ x.1) :
    d.entry? n = none := by
  rw [entry?_of_isRotation h]
  exact List.lookup_eq_none_iff.mpr fun x hx => bne_iff_ne.mpr (hfree x hx)

theorem ne_of_isRotation (h : isRotation log n = true) : log ≠ n := by
  rintro rfl
  rw [isRotation_self] at h
  cases h

/-! ## Renaming and compressing -/

variable {d' : LogFolder} {target : String}

theorem append_gz_ne (n : String) : n ++ ".gz" ≠ n := by
  intro heq
  have hlength := congrArg (fun n => n.toList.length) heq
  simp only [String.toList_append, List.length_append] at hlength
  have hthree : ".gz".toList.length = 3 := rfl
  omega

theorem setAsides_rename {e : LogEntry} (hentry : d.entry? log = some e)
    (htarget : isRotation log target = true) (hnew : target ∉ (d.setAsides log).map (·.1))
    (h : d.rename? log target = some d') :
    d'.setAsides log = d.setAsides log ++ [(target, e)] ∧ d'.entry? log = none ∧
      d'.files = d.files := by
  have hne := ne_of_isRotation htarget
  rw [rename?_eq_some hentry h]
  refine ⟨?_, ?_, rfl⟩
  · rw [setAsides_append, if_pos htarget]
    change setAsides ((d.without log).without target) log ++ _ = _
    rw [setAsides_without, setAsides_without, List.filter_eq_self.mpr, List.filter_eq_self.mpr]
    · intro x hx
      rw [bne_iff_ne]
      rintro rfl
      have hlog := (List.mem_filter.mp hx).2
      rw [isRotation_self] at hlog
      cases hlog
    · intro x hx
      rw [bne_iff_ne]
      rintro rfl
      exact hnew (List.mem_map_of_mem (List.mem_of_mem_filter hx))
  · change List.lookup log (((d.without log).without target).entries ++ [(target, e)]) = none
    rw [List.lookup_append, List.lookup_cons, beq_eq_false_iff_ne.mpr hne]
    change (LogFolder.entry? ((d.without log).without target) log).or none = none
    rw [entry?_without, if_neg hne, entry?_without, if_pos rfl]
    rfl

theorem setAsides_compress {refuses : FileOp → Bool} {packed : String}
    {before : List (String × LogEntry)} {id : Nat} {f : LogFile}
    (htarget : isRotation log target = true) (hpacked : isRotation log (target ++ ".gz") = true)
    (hentries : d.setAsides log = before ++ [(target, .file id)])
    (hbefore : ∀ x ∈ before, target ≠ x.1 ∧ target ++ ".gz" ≠ x.1) (hfile : d.files[id]? = some f)
    (h : d.compress refuses target = (some packed, d')) :
    d'.setAsides log = before ++ [(target ++ ".gz", .file d.files.length)] ∧
      d'.entry? log = d.entry? log ∧ d'.files = d.files ++ [⟨true, f.bytes⟩] := by
  have hgz := append_gz_ne target
  have hfound : d.entry? target = some (.file id) :=
    entry?_of_last htarget hentries fun x hx => (hbefore x hx).1
  have hnone : d.entry? (target ++ ".gz") = none := entry?_of_free hpacked <| by
    rw [hentries, List.forall_mem_append, List.forall_mem_singleton]
    exact ⟨fun x hx => (hbefore x hx).2, hgz⟩
  obtain ⟨f', id', d₁, hread, hopen, rfl, rfl⟩ := compress_eq_some h
  obtain ⟨rfl, rfl⟩ := openFile?_of_none hnone hopen
  obtain rfl : f' = f := by
    unfold file? at hread
    rw [hfound] at hread
    exact Option.some.inj (hread.symm.trans hfile)
  refine ⟨?_, ?_, ?_⟩
  · rw [setAsides_without]
    change (setAsides ⟨d.entries ++ [(target ++ ".gz", _)], _⟩ log).filter _ = _
    rw [setAsides_append, if_pos hpacked]
    change (d.setAsides log ++ _).filter _ = _
    rw [hentries, List.filter_append, List.filter_append, List.filter_eq_self.mpr,
      List.filter_singleton, List.filter_singleton, bne_self_eq_false, bne_iff_ne.mpr hgz]
    · exact congrArg (· ++ _) (List.append_nil before)
    · exact fun x hx => bne_iff_ne.mpr (hbefore x hx).1.symm
  · rw [entry?_without, if_neg (ne_of_isRotation htarget)]
    change List.lookup log (d.entries ++ [(target ++ ".gz", _)]) = _
    rw [List.lookup_append, List.lookup_cons, beq_eq_false_iff_ne.mpr (ne_of_isRotation hpacked)]
    exact Option.or_none
  · change (d.files ++ [_]).set d.files.length _ = _
    rw [List.set_append_right _ _ (Nat.le_refl _), Nat.sub_self]
    rfl

end LogFolder

/-- A file that was set aside: when, as which one, the buffers in it, and its number. -/
structure SetAside where
  time : Instant
  sequence : Nat
  buffers : List (List UInt8)
  file : Nat

namespace SetAside

/-- Its name in the directory of a log. -/
def nameIn (log : String) (compress : Bool) (s : SetAside) : String :=
  LogFolder.stamped log s.time s.sequence
    (LogFolder.extensionOf log ++ if compress then ".gz" else "")

/-- The digits of its name have their widths. -/
def Fits (s : SetAside) : Prop := s.time.HasFourDigitYear ∧ s.sequence < 10000

def Before (s t : SetAside) : Prop := s.time ≤ t.time ∧ s.sequence < t.sequence

theorem nameIn_lt {s t : SetAside} (hs : s.Fits) (ht : t.Fits) (h : s.Before t) (log : String)
    (compress : Bool) : s.nameIn log compress < t.nameIn log compress :=
  LogFolder.stamped_lt hs.1 ht.1 h.1 h.2 ht.2 log _ _

theorem isRotation_nameIn (log : String) (compress : Bool) (s : SetAside) :
    LogFolder.isRotation log (s.nameIn log compress) = true :=
  LogFolder.isRotation_stamped log _ _ _

end SetAside

/-- In a directory, the files set aside are these, the oldest first. -/
structure Archive (log : String) (compress : Bool) (d : LogFolder) (kept : List SetAside) :
    Prop where
  fits : ∀ s ∈ kept, s.Fits
  ascending : kept.Pairwise SetAside.Before
  entries : d.setAsides log = kept.map fun s => (s.nameIn log compress, .file s.file)
  files : ∀ s ∈ kept, d.files[s.file]? = some ⟨compress, s.buffers.flatten⟩

namespace Archive

variable {log : String} {compress : Bool} {d d' : LogFolder} {kept : List SetAside}

theorem empty (h : d.setAsides log = []) : Archive log compress d [] where
  fits := fun _ hs => absurd hs List.not_mem_nil
  ascending := List.Pairwise.nil
  entries := h
  files := fun _ hs => absurd hs List.not_mem_nil

theorem names_eq (h : Archive log compress d kept) :
    (d.setAsides log).map (·.1) = kept.map (·.nameIn log compress) := by
  rw [h.entries, List.map_map]
  rfl

theorem names_ascending (h : Archive log compress d kept) :
    (kept.map (·.nameIn log compress)).Pairwise (· < ·) := by
  rw [List.pairwise_map]
  exact h.ascending.imp_of_mem fun hs ht hbefore =>
    SetAside.nameIn_lt (h.fits _ hs) (h.fits _ ht) hbefore log compress

theorem nodup_names (h : Archive log compress d kept) : ((d.setAsides log).map (·.1)).Nodup := by
  rw [h.names_eq]
  exact h.names_ascending.imp ne_of_lt

theorem rotations_eq (h : Archive log compress d kept) :
    d.rotations log = kept.map (·.nameIn log compress) := by
  rw [LogFolder.rotations_of_ascending (h.names_eq ▸ h.names_ascending), h.names_eq]

theorem entry?_eq (h : Archive log compress d kept) {s : SetAside} (hs : s ∈ kept) :
    d.entry? (s.nameIn log compress) = some (.file s.file) := by
  have hmem : (s.nameIn log compress, LogEntry.file s.file) ∈ d.setAsides log := by
    rw [h.entries]
    exact List.mem_map_of_mem hs
  rw [LogFolder.entry?_of_isRotation (s.isRotation_nameIn log compress)]
  exact lookup_of_mem h.nodup_names hmem

theorem file?_eq (h : Archive log compress d kept) {s : SetAside} (hs : s ∈ kept) :
    d.file? (s.nameIn log compress) = some ⟨compress, s.buffers.flatten⟩ := by
  unfold LogFolder.file?
  rw [h.entry?_eq hs]
  exact h.files s hs

theorem contents_eq (h : Archive log compress d kept) :
    (d.rotations log).map d.file? = kept.map fun s => some ⟨compress, s.buffers.flatten⟩ := by
  rw [h.rotations_eq, List.map_map]
  exact List.map_congr_left fun s hs => h.file?_eq hs

theorem snoc (h : Archive log compress d kept) {s : SetAside} (hfits : s.Fits)
    (hlast : ∀ t ∈ kept, t.Before s)
    (hentries : d'.setAsides log = d.setAsides log ++ [(s.nameIn log compress, .file s.file)])
    (hfiles : ∀ t ∈ kept, d'.files[t.file]? = d.files[t.file]?)
    (hfile : d'.files[s.file]? = some ⟨compress, s.buffers.flatten⟩) :
    Archive log compress d' (kept ++ [s]) where
  fits := by
    intro t ht
    rcases List.mem_append.mp ht with ht | ht
    · exact h.fits t ht
    · rwa [List.mem_singleton.mp ht]
  ascending := by
    rw [List.pairwise_append]
    refine ⟨h.ascending, List.pairwise_singleton _ _, fun t ht u hu => ?_⟩
    rw [List.mem_singleton.mp hu]
    exact hlast t ht
  entries := by
    rw [hentries, h.entries, List.map_append]
    rfl
  files := by
    intro t ht
    rcases List.mem_append.mp ht with ht | ht
    · rw [hfiles t ht, h.files t ht]
    · rwa [List.mem_singleton.mp ht]

/-! ## Setting the log file aside -/

theorem file_lt (h : Archive log compress d kept) {s : SetAside} (hs : s ∈ kept) :
    s.file < d.files.length :=
  (List.getElem?_eq_some_iff.mp (h.files s hs)).1

variable {r r' : Rotator} {refuses : FileOp → Bool} {now : Instant} {moved : Option String}
  {id : Nat} {buffers : List (List UInt8)}

theorem reopened (h : Archive log compress d kept) (f : LogFile) :
    Archive log compress ⟨d.entries ++ [(log, .file d.files.length)], d.files ++ [f]⟩ kept where
  fits := h.fits
  ascending := h.ascending
  entries := by
    rw [LogFolder.setAsides_append, LogFolder.isRotation_self, if_neg Bool.false_ne_true,
      List.append_nil]
    exact h.entries
  files := fun s hs => by
    rw [List.getElem?_append_left (h.file_lt hs)]
    exact h.files s hs

theorem setAside_eq_ok (hentry : d.entry? log = some (.file id))
    (hsequence : r.sequence < Text.u32Max)
    (hrun : r.setAside refuses now log d = (.ok moved, r', d')) :
    r' = { r with sequence := r.sequence + 1 } ∧
      ∃ d₁, d.rename? log (LogFolder.rotatedName log now (r.sequence + 1)) = some d₁ ∧
        if r.rotation.compress then
          ∃ packed, d₁.compress refuses (LogFolder.rotatedName log now (r.sequence + 1)) =
            (some packed, d')
        else d' = d₁ := by
  have hnext : (r.sequence + 1) % (Text.u32Max + 1) = r.sequence + 1 :=
    Nat.mod_eq_of_lt (Nat.succ_lt_succ hsequence)
  unfold Rotator.setAside at hrun
  rw [hentry] at hrun
  simp only [hnext] at hrun
  split at hrun
  · rename_i d₁ hrename _
    split at hrun
    · rename_i hcompress
      split at hrun
      · rename_i packed d₂ hpacked
        cases hrun
        exact ⟨rfl, d₁, hrename, by rw [if_pos hcompress]; exact ⟨packed, hpacked⟩⟩
      · cases hrun
    · rename_i hcompress
      cases hrun
      exact ⟨rfl, _, hrename, by rw [if_neg hcompress]⟩
  · cases hrun

theorem ne_of_later (h : Archive log compress d kept) {n : Nat} (hyear : now.HasFourDigitYear)
    (hn : n < 10000) (hlast : ∀ s ∈ kept, s.time ≤ now ∧ s.sequence < n) (x : String) :
    ∀ e ∈ d.setAsides log, LogFolder.rotatedName log now n ++ x ≠ e.1 := by
  rw [h.entries, List.forall_mem_map, LogFolder.rotatedName_append]
  exact fun s hs => ne_of_gt
    (LogFolder.stamped_lt (h.fits s hs).1 hyear (hlast s hs).1 (hlast s hs).2 hn log _ _)

theorem renamed (h : Archive log compress d kept) (hentry : d.entry? log = some (.file id))
    {n : Nat} (hyear : now.HasFourDigitYear) (hn : n < 10000)
    (hlast : ∀ s ∈ kept, s.time ≤ now ∧ s.sequence < n)
    (hrename : d.rename? log (LogFolder.rotatedName log now n) = some d') :
    d'.setAsides log = d.setAsides log ++ [(LogFolder.rotatedName log now n, .file id)] ∧
      d'.entry? log = none ∧ d'.files = d.files := by
  have htaken := LogFolder.isRotation_rotatedName log now n ""
  have hnew := h.ne_of_later hyear hn hlast ""
  rw [String.append_empty] at htaken hnew
  refine LogFolder.setAsides_rename hentry htaken (fun hmem => ?_) hrename
  obtain ⟨e, he, heq⟩ := List.mem_map.mp hmem
  exact hnew e he heq.symm

theorem setAside (h : Archive log r.rotation.compress d kept)
    (hentry : d.entry? log = some (.file id)) (hfile : d.files[id]? = some ⟨false, buffers.flatten⟩)
    (hyear : now.HasFourDigitYear) (hsequence : r.sequence + 1 < 10000)
    (hlast : ∀ s ∈ kept, s.time ≤ now ∧ s.sequence < r.sequence + 1)
    (hrun : r.setAside refuses now log d = (.ok moved, r', d')) :
    r' = { r with sequence := r.sequence + 1 } ∧ d'.entry? log = none ∧
      ∃ file, Archive log r.rotation.compress d'
        (kept ++ [⟨now, r.sequence + 1, buffers, file⟩]) := by
  obtain ⟨hr, d₁, hrename, hcompress⟩ := setAside_eq_ok hentry
    (show r.sequence < Text.u32Max by unfold Text.u32Max; omega) hrun
  obtain ⟨hentries, hgone, hfiles⟩ := h.renamed hentry hyear hsequence hlast hrename
  refine ⟨hr, ?_⟩
  -- The renamed file is packed under another ending, or stays as it is.
  split at hcompress
  · rename_i hpacks
    obtain ⟨packed, hpacked⟩ := hcompress
    have hplain := h.ne_of_later hyear hsequence hlast ""
    have htaken := LogFolder.isRotation_rotatedName log now (r.sequence + 1) ""
    rw [String.append_empty] at hplain htaken
    obtain ⟨hentries', hgone', hfiles'⟩ := LogFolder.setAsides_compress htaken
      (LogFolder.isRotation_rotatedName log now _ ".gz") hentries
      (fun e he => ⟨hplain e he, h.ne_of_later hyear hsequence hlast ".gz" e he⟩)
      (hfiles ▸ hfile) hpacked
    refine ⟨hgone'.trans hgone, d₁.files.length, h.snoc ⟨hyear, hsequence⟩ hlast ?_ ?_ ?_⟩
    · rw [hentries', LogFolder.rotatedName_append]
      simp only [SetAside.nameIn, hpacks, if_true]
    · intro s hs
      rw [hfiles', hfiles, List.getElem?_append_left (h.file_lt hs)]
    · rw [hfiles', hpacks]
      exact List.getElem?_concat_length
  · rename_i hplainly
    subst hcompress
    refine ⟨hgone, id, h.snoc ⟨hyear, hsequence⟩ hlast ?_ ?_ ?_⟩
    · rw [hentries, ← String.append_empty (s := LogFolder.rotatedName _ _ _),
        LogFolder.rotatedName_append]
      simp only [SetAside.nameIn, hplainly]
      rfl
    · exact fun s hs => by rw [hfiles]
    · rw [hfiles, hfile]
      simp only [hplainly]

theorem setAside_isOk (h : Archive log compress d kept) (hsound : ∀ op, refuses op = false)
    (hentry : d.entry? log = some (.file id)) {f : LogFile} (hfile : d.files[id]? = some f)
    (hyear : now.HasFourDigitYear) (hsequence : r.sequence + 1 < 10000)
    (hlast : ∀ s ∈ kept, s.time ≤ now ∧ s.sequence < r.sequence + 1)
    (hname : log.utf8ByteSize + 27 ≤ 255) :
    ∃ moved r' d', r.setAside refuses now log d = (.ok moved, r', d') := by
  have hnext : (r.sequence + 1) % (Text.u32Max + 1) = r.sequence + 1 :=
    Nat.mod_eq_of_lt (by unfold Text.u32Max; omega)
  have htaken := LogFolder.isRotation_rotatedName log now (r.sequence + 1) ""
  have hplain := h.ne_of_later hyear hsequence hlast ""
  have hisName (x : String) (hx : x.utf8ByteSize ≤ 3) :
      LogFolder.isName (LogFolder.rotatedName log now (r.sequence + 1) ++ x) = true :=
    LogFolder.isName_rotatedName hyear (by omega) _
  have hmoved := hisName "" (by decide)
  rw [String.append_empty] at htaken hplain hmoved
  obtain ⟨d₁, hrename⟩ := LogFolder.rename?_isSome hentry (LogFolder.entry?_of_free htaken hplain)
    hmoved
  obtain ⟨hentries, -, hfiles⟩ := h.renamed hentry hyear hsequence hlast hrename
  have hpacked : ∃ packed d₂, d₁.compress refuses (LogFolder.rotatedName log now (r.sequence + 1)) =
      (some packed, d₂) := by
    have htarget := LogFolder.entry?_of_last htaken hentries hplain
    have hread : d₁.file? (LogFolder.rotatedName log now (r.sequence + 1)) = some f := by
      unfold LogFolder.file?
      rw [htarget, hfiles]
      exact hfile
    refine LogFolder.compress_isSome hsound hread ?_ (hisName ".gz" (by decide))
    refine LogFolder.entry?_of_free (LogFolder.isRotation_rotatedName log now _ ".gz") ?_
    rw [hentries, List.forall_mem_append, List.forall_mem_singleton]
    exact ⟨h.ne_of_later hyear hsequence hlast ".gz", LogFolder.append_gz_ne _⟩
  obtain ⟨packed, d₂, hpacked⟩ := hpacked
  unfold Rotator.setAside
  simp only [hentry, hnext, hrename, hsound]
  split
  · simp only [hpacked]
    exact ⟨_, _, _, rfl⟩
  · exact ⟨_, _, _, rfl⟩

/-! ## Pruning -/

theorem prune (h : Archive log compress d kept) (hrun : r.prune refuses log d = (true, d')) :
    d'.entry? log = d.entry? log ∧
      Archive log compress d' (kept.drop (kept.length - (r.rotation.maxFiles - 1))) := by
  unfold Rotator.prune at hrun
  split at hrun
  · cases hrun
  · simp only [h.rotations_eq, List.length_map] at hrun
    rw [LogFolder.removeAll_eq_true hrun, ← h.names_eq]
    generalize kept.length - (r.rotation.maxFiles - 1) = k
    have hlog : log ∉ ((d.setAsides log).map (·.1)).take k := by
      intro hmem
      obtain ⟨e, he, heq⟩ := List.mem_map.mp (List.mem_of_mem_take hmem)
      exact LogFolder.ne_of_isRotation (List.mem_filter.mp he).2 heq.symm
    refine ⟨?_, fun s hs => h.fits s (List.mem_of_mem_drop hs),
      h.ascending.sublist (List.drop_sublist _ _), ?_,
      fun s hs => h.files s (List.mem_of_mem_drop hs)⟩
    · unfold LogFolder.entry?
      rw [lookup_filter fun n => !(((d.setAsides log).map (·.1)).take k).contains n]
      simp [hlog]
    · unfold LogFolder.setAsides
      rw [List.filter_comm]
      change (d.setAsides log).filter
        (fun e => !(((d.setAsides log).map (·.1)).take k).contains e.1) = _
      rw [LogFolder.filter_not_take h.nodup_names, h.entries, List.map_drop]

theorem prune_isOk (h : Archive log compress d kept) (hsound : ∀ op, refuses op = false)
    (r : Rotator) : ∃ d', r.prune refuses log d = (true, d') := by
  have hnames := h.names_ascending.imp ne_of_lt
  unfold Rotator.prune
  rw [hsound, if_neg Bool.false_ne_true]
  refine LogFolder.removeAll_of_files hsound ?_ fun n hn => ?_
  · rw [h.rotations_eq]
    exact hnames.sublist (List.take_sublist _ _)
  · rw [h.rotations_eq] at hn
    obtain ⟨s, hs, rfl⟩ := List.mem_map.mp (List.mem_of_mem_take hn)
    exact ⟨s.file, h.entry?_eq hs⟩

theorem rotate_eq_ok (hrun : r.rotate refuses now log d = (.ok moved, r', d')) :
    ∃ d₁, r.setAside refuses now log d = (.ok moved, r', d₁) ∧
      r'.prune refuses log d₁ = (true, d') := by
  unfold Rotator.rotate at hrun
  split at hrun
  · rename_i rotated r₁ d₁ hset
    split at hrun
    · rename_i d₂ hprune
      cases hrun
      exact ⟨d₁, hset, hprune⟩
    · cases hrun
  · rename_i hfailed
    exact absurd hrun (hfailed moved r' d')

theorem rotate (h : Archive log r.rotation.compress d kept)
    (hentry : d.entry? log = some (.file id)) (hfile : d.files[id]? = some ⟨false, buffers.flatten⟩)
    (hyear : now.HasFourDigitYear) (hsequence : r.sequence + 1 < 10000)
    (hlast : ∀ s ∈ kept, s.time ≤ now ∧ s.sequence < r.sequence + 1)
    (hrun : r.rotate refuses now log d = (.ok moved, r', d')) :
    r' = { r with sequence := r.sequence + 1 } ∧ d'.entry? log = none ∧
      ∃ file, Archive log r.rotation.compress d'
        ((kept ++ [SetAside.mk now (r.sequence + 1) buffers file]).drop
          (kept.length + 1 - (r.rotation.maxFiles - 1))) := by
  obtain ⟨d₁, hset, hprune⟩ := rotate_eq_ok hrun
  obtain ⟨rfl, hgone, file, harchive⟩ := h.setAside hentry hfile hyear hsequence hlast hset
  obtain ⟨hsame, hpruned⟩ := harchive.prune hprune
  rw [List.length_append] at hpruned
  exact ⟨rfl, hsame.trans hgone, file, hpruned⟩

theorem rotate_isOk (h : Archive log r.rotation.compress d kept) (hsound : ∀ op, refuses op = false)
    (hentry : d.entry? log = some (.file id)) (hfile : d.files[id]? = some ⟨false, buffers.flatten⟩)
    (hyear : now.HasFourDigitYear) (hsequence : r.sequence + 1 < 10000)
    (hlast : ∀ s ∈ kept, s.time ≤ now ∧ s.sequence < r.sequence + 1)
    (hname : log.utf8ByteSize + 27 ≤ 255) :
    ∃ moved r' d', r.rotate refuses now log d = (.ok moved, r', d') := by
  obtain ⟨moved, r', d₁, hset⟩ := h.setAside_isOk hsound hentry hfile hyear hsequence hlast hname
  obtain ⟨-, -, file, harchive⟩ := h.setAside hentry hfile hyear hsequence hlast hset
  obtain ⟨d₂, hprune⟩ := harchive.prune_isOk hsound r'
  unfold Rotator.rotate
  simp only [hset, hprune]
  exact ⟨_, _, _, rfl⟩

end Archive

end Cadence
