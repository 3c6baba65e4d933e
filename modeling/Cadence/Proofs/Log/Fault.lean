import Cadence.Proofs.Log.Archive
import Cadence.Proofs.Log.Sound

/-!
# Rotations that fail on the way

Setting a log file aside is a rename, perhaps a compressed copy and then the removal of the
original. Each of these may fail, and what was done before stays done. So it is with the removals of
a pruning.
-/

namespace Cadence

namespace LogFolder

theorem opens_compress {refuses : FileOp → Bool} {name : String} {packed : Option String}
    {d d' : LogFolder} (hd : d.Sound) (h : d.compress refuses name = (packed, d')) :
    match packed with
    | none => d' = d ∨ ∃ id, d.Opens (name ++ ".gz") id d'
    | some moved => ∃ f id d₁, d.file? name = some f ∧ d.Opens (name ++ ".gz") id d₁ ∧
        d₁.files[id]? = some ⟨true, f.bytes⟩ ∧ moved = name ++ ".gz" ∧ d' = d₁.without name := by
  rcases compress_cases h with ⟨rfl, rfl⟩ | ⟨f, id, d₁, hfile, hopen, hcases⟩
  · exact .inl rfl
  · have hopens := hd.opens_openFile hopen
    rcases hcases with ⟨rfl, rfl | rfl⟩ | ⟨rfl, rfl⟩
    · exact .inr ⟨id, hopens⟩
    · exact .inr ⟨id, hopens.setFile _⟩
    · exact ⟨f, id, _, hfile, hopens.setFile _, List.getElem?_set_self hopens.range, rfl, rfl⟩

end LogFolder

namespace Rotator

/-- One file more is set aside. -/
def next (r : Rotator) : Rotator := { r with sequence := (r.sequence + 1) % (Text.u32Max + 1) }

/-- The name under which the log file is set aside next. -/
def target (r : Rotator) (now : Instant) (log : String) : String :=
  LogFolder.rotatedName log now r.next.sequence

/-- What may come of setting the log file aside: the answer, the rotator and the directory. -/
inductive Aside (r : Rotator) (now : Instant) (log : String) (d : LogFolder) :
    Except LogError (Option String) → Rotator → LogFolder → Prop
  | absent (hnone : d.entry? log = none) : Aside r now log d (.ok none) r d
  | refused {e : LogEntry} (hentry : d.entry? log = some e) :
      Aside r now log d (.error .io) r.next d
  | plain {e : LogEntry} {d₁ : LogFolder} (hentry : d.entry? log = some e)
      (hrename : d.rename? log (r.target now log) = some d₁)
      (hplain : r.rotation.compress = false) :
      Aside r now log d (.ok (some (r.target now log))) r.next d₁
  /-- there is no compressed file -/
  | unpacked {e : LogEntry} {d₁ : LogFolder} (hentry : d.entry? log = some e)
      (hrename : d.rename? log (r.target now log) = some d₁) :
      Aside r now log d (.error .io) r.next d₁
  /-- there is a compressed file, complete or not, beside the original -/
  | doubled {e : LogEntry} {d₁ d₂ : LogFolder} {id : Nat} (hentry : d.entry? log = some e)
      (hrename : d.rename? log (r.target now log) = some d₁)
      (hopens : d₁.Opens (r.target now log ++ ".gz") id d₂) :
      Aside r now log d (.error .io) r.next d₂
  | packed {e : LogEntry} {d₁ d₂ : LogFolder} {id : Nat} {f : LogFile}
      (hentry : d.entry? log = some e) (hrename : d.rename? log (r.target now log) = some d₁)
      (hcompress : r.rotation.compress = true) (hfile : d₁.file? (r.target now log) = some f)
      (hopens : d₁.Opens (r.target now log ++ ".gz") id d₂)
      (hpacked : d₂.files[id]? = some ⟨true, f.bytes⟩) :
      Aside r now log d (.ok (some (r.target now log ++ ".gz"))) r.next
        (d₂.without (r.target now log))

theorem aside_setAside {r r' : Rotator} {refuses : FileOp → Bool} {now : Instant} {log : String}
    {d d' : LogFolder} {moved : Except LogError (Option String)} (hd : d.Sound)
    (hrun : r.setAside refuses now log d = (moved, r', d')) : Aside r now log d moved r' d' := by
  unfold setAside at hrun
  split at hrun
  · rename_i hnone
    cases hrun
    exact .absent hnone
  · rename_i e hentry
    simp only at hrun
    split at hrun
    · rename_i d₁ hrename _
      split at hrun
      · rename_i hcompress
        split at hrun
        all_goals
          rename_i hpack
          cases hrun
          have hcases := LogFolder.opens_compress (hd.rename hentry hrename).1 hpack
        · obtain ⟨f, id, d₂, hfile, hopens, hread, rfl, rfl⟩ := hcases
          exact .packed hentry hrename hcompress hfile hopens hread
        · rcases hcases with rfl | ⟨id, hopens⟩
          · exact .unpacked hentry hrename
          · exact .doubled hentry hrename hopens
      · rename_i hplain
        cases hrun
        exact .plain hentry hrename (Bool.eq_false_iff.mpr hplain)
    · cases hrun
      exact .refused hentry

/-! ## Where the bytes are -/

theorem log_ne_target (r : Rotator) (now : Instant) (log : String) {x : String} :
    log ≠ r.target now log ++ x :=
  LogFolder.ne_of_isRotation (LogFolder.isRotation_rotatedName log now r.next.sequence x)

theorem log_ne_target_plain (r : Rotator) (now : Instant) (log : String) :
    log ≠ r.target now log := by
  have hne := r.log_ne_target now log (x := "")
  rwa [String.append_empty] at hne

namespace Aside

variable {r r' : Rotator} {now : Instant} {log n : String} {d d' : LogFolder}
  {moved : Except LogError (Option String)} {bytes : List UInt8} {i : Nat}

theorem sound (h : Aside r now log d moved r' d') (hd : d.Sound) : d'.Sound ∧ d'.Follows d := by
  cases h with
  | absent | refused => exact ⟨hd, .refl d⟩
  | plain hentry hrename | unpacked hentry hrename => exact hd.rename hentry hrename
  | doubled hentry hrename hopens =>
    obtain ⟨hsound, hfollows⟩ := hd.rename hentry hrename
    obtain ⟨hsound', hfollows'⟩ := hsound.opens hopens
    exact ⟨hsound', hfollows'.trans hfollows⟩
  | packed hentry hrename _ _ hopens =>
    obtain ⟨hsound, hfollows⟩ := hd.rename hentry hrename
    obtain ⟨hsound', hfollows'⟩ := hsound.opens hopens
    obtain ⟨hsound'', hfollows''⟩ := hsound'.without (r.target now log)
    exact ⟨hsound'', (hfollows''.trans hfollows').trans hfollows⟩

theorem rotator (h : Aside r now log d moved r' d') : r' = r ∨ r' = r.next := by
  cases h with
  | absent => exact .inl rfl
  | _ => exact .inr rfl

theorem entry?_log (h : Aside r now log d moved r' d') :
    d'.entry? log = none ∨ d' = d ∧ moved = .error .io := by
  have hne := r.log_ne_target_plain now log
  have hgone {e : LogEntry} {d₁ : LogFolder} (hentry : d.entry? log = some e)
      (hrename : d.rename? log (r.target now log) = some d₁) : d₁.entry? log = none := by
    rw [LogFolder.entry?_rename hentry hrename, if_neg hne, if_pos rfl]
  cases h with
  | absent hnone => exact .inl hnone
  | refused => exact .inr ⟨rfl, rfl⟩
  | plain hentry hrename | unpacked hentry hrename => exact .inl (hgone hentry hrename)
  | doubled hentry hrename hopens =>
    refine .inl ?_
    rw [hopens.entries, if_neg (r.log_ne_target now log)]
    exact hgone hentry hrename
  | packed hentry hrename _ _ hopens =>
    refine .inl ?_
    rw [LogFolder.entry?_without, if_neg hne, hopens.entries, if_neg (r.log_ne_target now log)]
    exact hgone hentry hrename

theorem holds (h : Aside r now log d moved r' d') (hd : d.Sound) (hbytes : d.Holds n bytes)
    (hplain : n ≠ r.target now log) (hgz : n ≠ r.target now log ++ ".gz") :
    ∃ m, d'.Holds m bytes ∧
      (m = n ∨ r' = r.next ∧ (m = r.target now log ∨ m = r.target now log ++ ".gz")) := by
  have hmark := LogFolder.append_gz_ne (r.target now log)
  have hrenamed {e : LogEntry} {d₁ : LogFolder} (hentry : d.entry? log = some e)
      (hrename : d.rename? log (r.target now log) = some d₁) :
      ∃ m, d₁.Holds m bytes ∧ (m = n ∨ m = r.target now log) := by
    refine ⟨_, hbytes.rename hentry hrename hplain, ?_⟩
    by_cases hlog : n = log
    · exact .inr (if_pos hlog)
    · exact .inl (if_neg hlog)
  cases h with
  | absent | refused => exact ⟨n, hbytes, .inl rfl⟩
  | plain hentry hrename | unpacked hentry hrename =>
    obtain ⟨m, hm, hcases⟩ := hrenamed hentry hrename
    exact ⟨m, hm, hcases.imp_right fun h => ⟨rfl, .inl h⟩⟩
  | doubled hentry hrename hopens =>
    obtain ⟨m, hm, hcases⟩ := hrenamed hentry hrename
    have hne : m ≠ r.target now log ++ ".gz" := by
      rcases hcases with rfl | rfl
      · exact hgz
      · exact hmark.symm
    exact ⟨m, hm.opens (hd.rename hentry hrename).1 hopens hne,
      hcases.imp_right fun h => ⟨rfl, .inl h⟩⟩
  | packed hentry hrename _ hfile hopens hpacked =>
    obtain ⟨m, hm, hcases⟩ := hrenamed hentry hrename
    by_cases htarget : m = r.target now log
    · -- The bytes are in the file that is compressed.
      obtain ⟨f, hread, hin⟩ := htarget ▸ hm
      obtain rfl := Option.some.inj (hread.symm.trans hfile)
      refine ⟨_, LogFolder.holds_iff.mpr ⟨_, _, ?_, hpacked, hin⟩, .inr ⟨rfl, .inr rfl⟩⟩
      rw [LogFolder.entry?_without, if_neg hmark, hopens.entries, if_pos rfl]
    · obtain rfl := hcases.resolve_right htarget
      exact ⟨m, (hm.opens (hd.rename hentry hrename).1 hopens hgz).without htarget, .inl rfl⟩

/-! ## The open file -/

theorem entry?_renamed {e : LogEntry}
    (hactive : d.entry? log = none ∨ d.entry? log = some (.file i))
    (hentry : d.entry? log = some e) (hrename : d.rename? log (r.target now log) = some d') :
    d'.entry? (r.target now log) = some (.file i) := by
  rw [hentry] at hactive
  rw [LogFolder.entry?_rename hentry hrename, if_pos rfl]
  exact hactive.resolve_left nofun

theorem ne_packed {e : LogEntry} {d₁ : LogFolder} {id : Nat} (hd : d.Sound)
    (hactive : d.entry? log = none ∨ d.entry? log = some (.file i))
    (hentry : d.entry? log = some e) (hrename : d.rename? log (r.target now log) = some d₁)
    (hopens : d₁.Opens (r.target now log ++ ".gz") id d') : i ≠ id := by
  rintro rfl
  exact LogFolder.append_gz_ne _
    ((hd.rename hentry hrename).1.eq_of_opens hopens (entry?_renamed hactive hentry hrename)).symm

theorem files_open (h : Aside r now log d moved r' d') (hd : d.Sound)
    (hactive : d.entry? log = none ∨ d.entry? log = some (.file i)) (hi : i < d.files.length) :
    d'.files[i]? = d.files[i]? := by
  have hpacks {e : LogEntry} {d₁ d₂ : LogFolder} {id : Nat} (hentry : d.entry? log = some e)
      (hrename : d.rename? log (r.target now log) = some d₁)
      (hopens : d₁.Opens (r.target now log ++ ".gz") id d₂) : d₂.files[i]? = d.files[i]? := by
    have hfiles := LogFolder.files_rename hentry hrename
    rw [hopens.files i (hfiles ▸ hi) (ne_packed hd hactive hentry hrename hopens), hfiles]
  cases h with
  | absent | refused => rfl
  | plain hentry hrename | unpacked hentry hrename => rw [LogFolder.files_rename hentry hrename]
  | doubled hentry hrename hopens => exact hpacks hentry hrename hopens
  | packed hentry hrename _ _ hopens =>
    have hsame := hpacks hentry hrename hopens
    exact hsame

theorem entry?_open (h : Aside r now log d moved r' d') (hd : d.Sound)
    (hactive : d.entry? log = none ∨ d.entry? log = some (.file i))
    (hn : d'.entry? n = some (.file i)) :
    d.entry? n = some (.file i) ∨ r' = r.next ∧ n = r.target now log := by
  have hrenamed {e : LogEntry} {d₁ : LogFolder} (hentry : d.entry? log = some e)
      (hrename : d.rename? log (r.target now log) = some d₁) (hn : d₁.entry? n = some (.file i)) :
      d.entry? n = some (.file i) ∨ n = r.target now log := by
    rw [LogFolder.entry?_rename hentry hrename] at hn
    by_cases htarget : n = r.target now log
    · exact .inr htarget
    · rw [if_neg htarget] at hn
      split at hn
      · cases hn
      · exact .inl hn
  have hopened {e : LogEntry} {d₁ d₂ : LogFolder} {id : Nat} (hentry : d.entry? log = some e)
      (hrename : d.rename? log (r.target now log) = some d₁)
      (hopens : d₁.Opens (r.target now log ++ ".gz") id d₂) (hn : d₂.entry? n = some (.file i)) :
      d₁.entry? n = some (.file i) := by
    rcases hopens.cases hn with ⟨-, hi⟩ | ⟨-, hn⟩
    · exact absurd hi (ne_packed hd hactive hentry hrename hopens)
    · exact hn
  cases h with
  | absent | refused => exact .inl hn
  | plain hentry hrename | unpacked hentry hrename =>
    exact (hrenamed hentry hrename hn).imp_right fun h => ⟨rfl, h⟩
  | doubled hentry hrename hopens =>
    exact (hrenamed hentry hrename (hopened hentry hrename hopens hn)).imp_right fun h => ⟨rfl, h⟩
  | packed hentry hrename _ _ hopens =>
    rw [LogFolder.entry?_without] at hn
    split at hn
    · cases hn
    · exact (hrenamed hentry hrename (hopened hentry hrename hopens hn)).imp_right
        fun h => ⟨rfl, h⟩

/-- The open file is without a name only where it was compressed, or had none. -/
theorem hasName_iff (h : Aside r now log d moved r' d') (hd : d.Sound)
    (hactive : d.entry? log = none ∨ d.entry? log = some (.file i)) :
    d'.HasName i ↔
      d.HasName i ∧ ¬ (r.rotation.compress = true ∧ ∃ packed, moved = .ok (some packed)) := by
  have hrenamed {e : LogEntry} (hentry : d.entry? log = some e) : d.HasName i :=
    ⟨log, (hactive.resolve_left (by rw [hentry]; nofun))⟩
  cases h with
  | absent hnone => exact (and_iff_left fun h => nomatch h.2).symm
  | refused => exact (and_iff_left fun h => nomatch h.2).symm
  | plain hentry hrename hplain =>
    refine iff_of_true ⟨_, entry?_renamed hactive hentry hrename⟩ ⟨hrenamed hentry, fun h => ?_⟩
    rw [hplain] at h
    exact Bool.false_ne_true h.1
  | unpacked hentry hrename =>
    exact iff_of_true ⟨_, entry?_renamed hactive hentry hrename⟩
      ⟨hrenamed hentry, fun h => nomatch h.2⟩
  | doubled hentry hrename hopens =>
    refine iff_of_true ⟨r.target now log, ?_⟩ ⟨hrenamed hentry, fun h => nomatch h.2⟩
    rw [hopens.entries, if_neg (LogFolder.append_gz_ne _).symm]
    exact entry?_renamed hactive hentry hrename
  | packed hentry hrename hcompress hfile hopens hpacked =>
    refine iff_of_false ?_ fun h => h.2 ⟨hcompress, _, rfl⟩
    rintro ⟨m, hm⟩
    rw [LogFolder.entry?_without] at hm
    split at hm
    · cases hm
    · -- The name that the open file had by then was its only one, and it is gone.
      rename_i hne
      have hsame := entry?_renamed hactive hentry hrename
      rcases hopens.cases hm with ⟨-, hid⟩ | ⟨-, hm⟩
      · exact ne_packed hd hactive hentry hrename hopens hid
      · exact hne ((hd.rename hentry hrename).1.single m _ i hm hsame)

end Aside

end Rotator

/-! ## Pruning -/

/-- The oldest of the files set aside, up to those that are kept. -/
def LogFolder.excess (d : LogFolder) (log : String) (maxFiles : Nat) : List String :=
  (d.rotations log).take ((d.rotations log).length - (maxFiles - 1))

theorem Rotator.prune_cases {r : Rotator} {refuses : FileOp → Bool} {log : String}
    {d d' : LogFolder} {all : Bool} (h : r.prune refuses log d = (all, d')) :
    ∃ gone, gone <+: d.excess log r.rotation.maxFiles ∧
      (all = true → gone = d.excess log r.rotation.maxFiles) ∧ d'.files = d.files ∧
      ∀ n, d'.entry? n = if n ∈ gone then none else d.entry? n := by
  unfold prune at h
  simp only at h
  split at h
  · cases h
    exact ⟨[], List.nil_prefix, nofun, rfl, fun n => (if_neg List.not_mem_nil).symm⟩
  · obtain ⟨gone, rest, hnames, hall, hfiles, hentries⟩ := LogFolder.removeAll_cases h
    refine ⟨gone, ⟨rest, hnames.symm⟩, fun htrue => ?_, hfiles, hentries⟩
    rw [hall.mp htrue, List.append_nil] at hnames
    exact hnames.symm

theorem Rotator.entry?_of_prune {r : Rotator} {refuses : FileOp → Bool} {log n : String}
    {d d' : LogFolder} {all : Bool} {e : LogEntry} (h : r.prune refuses log d = (all, d'))
    (hn : d'.entry? n = some e) : d.entry? n = some e := by
  obtain ⟨gone, -, -, -, hentries⟩ := prune_cases h
  rw [hentries] at hn
  split at hn
  · cases hn
  · exact hn

/-! ## What a rotation may do to a file -/

namespace Rotator

variable {r : Rotator} {refuses : FileOp → Bool} {now : Instant} {log : String} {d : LogFolder}
  {i : Nat}

/-- The pruning removes a file with the bytes, as one of the oldest. -/
def Prunes (r : Rotator) (refuses : FileOp → Bool) (now : Instant) (log : String) (d : LogFolder)
    (bytes : List UInt8) : Prop :=
  ∃ moved r' d₁ n, r.setAside refuses now log d = (.ok moved, r', d₁) ∧ d₁.Holds n bytes ∧
    n ∈ d₁.excess log r'.rotation.maxFiles ∧
    LogFolder.entry? (r'.prune refuses log d₁).2 n = none

/-- The log file gets a name that a file with the bytes has already, and takes its place. -/
def Replaces (r : Rotator) (refuses : FileOp → Bool) (now : Instant) (log : String)
    (d : LogFolder) (bytes : List UInt8) : Prop :=
  ∃ n, d.Holds n bytes ∧ (n = r.target now log ∨ n = r.target now log ++ ".gz") ∧
    ¬ LogFolder.Holds (r.setAside refuses now log d).2.2 n bytes

/-- The pruning fails when the open file has been compressed, or when it has removed this file. -/
def Strays (r : Rotator) (refuses : FileOp → Bool) (now : Instant) (log : String) (d : LogFolder)
    (i : Nat) : Prop :=
  ∃ moved r' d₁ d₂, r.setAside refuses now log d = (.ok moved, r', d₁) ∧
    r'.prune refuses log d₁ = (false, d₂) ∧
    ((r.rotation.compress = true ∧ ∃ packed, moved = some packed) ∨
      ∃ n, d₁.entry? n = some (.file i) ∧ d₂.entry? n = none)

theorem hasName_pruned_iff {r' : Rotator} {moved : Option String} {d₁ d₂ : LogFolder}
    (hd : d.Sound) (hactive : d.entry? log = none ∨ d.entry? log = some (.file i))
    (hname : d.HasName i) (hset : r.setAside refuses now log d = (.ok moved, r', d₁))
    (hprune : r'.prune refuses log d₁ = (false, d₂)) :
    d₂.HasName i ↔ ¬ r.Strays refuses now log d i := by
  have haside := aside_setAside hd hset
  have hsound := (haside.sound hd).1
  have hmoved := haside.hasName_iff hd hactive
  obtain ⟨gone, -, -, -, hentries⟩ := prune_cases hprune
  have hleft {n : String} {e : LogEntry} (hn : d₂.entry? n = some e) : d₁.entry? n = some e :=
    entry?_of_prune hprune hn
  have hstrays : r.Strays refuses now log d i ↔
      (r.rotation.compress = true ∧ ∃ packed, moved = some packed) ∨
        ∃ n, d₁.entry? n = some (.file i) ∧ d₂.entry? n = none := by
    constructor
    · rintro ⟨moved', r'', d₁', d₂', hset', hprune', h⟩
      cases hset.symm.trans hset'
      cases hprune.symm.trans hprune'
      exact h
    · exact fun h => ⟨moved, r', d₁, d₂, hset, hprune, h⟩
  rw [hstrays, not_or]
  constructor
  · rintro ⟨n, hn⟩
    refine ⟨fun ⟨hcompress, packed, hpacked⟩ => ?_, fun ⟨m, hm, hgone⟩ => ?_⟩
    · exact (hmoved.mp ⟨n, hleft hn⟩).2 ⟨hcompress, packed, congrArg Except.ok hpacked⟩
    · rw [hsound.single m n i hm (hleft hn), hn] at hgone
      cases hgone
  · rintro ⟨hplain, hkept⟩
    obtain ⟨n, hn⟩ := hmoved.mpr
      ⟨hname, fun ⟨hcompress, packed, hok⟩ => hplain ⟨hcompress, packed, Except.ok.inj hok⟩⟩
    refine ⟨n, ?_⟩
    rw [hentries]
    by_cases hmem : n ∈ gone
    · exact absurd ⟨n, hn, by rw [hentries, if_pos hmem]⟩ hkept
    · rw [if_neg hmem]
      exact hn

end Rotator

end Cadence
