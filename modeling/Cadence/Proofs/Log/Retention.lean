import Cadence.Proofs.Log.Course
import Cadence.Proofs.Log.Fault

/-!
# Where the bytes of a log go

Whatever fails on the way, bytes that the writer takes are found in the log file or in a file that
was set aside, until a pruning removes that file as one of the oldest. There is one exception: a
writer whose file has no name any more. This happens in one way only, when a pruning fails after the
open file was compressed, or after this very pruning has removed it.
-/

namespace Cadence

/-! ## What may become of the bytes -/

namespace LogFolder

/-- A name that a file of the log may have when `k` of them have been set aside. -/
def IsFileOf (log : String) (k : Nat) (n : String) : Prop :=
  n = log ∨ ∃ (t : Instant) (j : Nat) (x : String),
    j ≤ k ∧ IsPackMark x ∧ n = rotatedName log t (j % (Text.u32Max + 1)) ++ x

/-- The bytes can be read in the log file or in one that was set aside. -/
def Keeps (d : LogFolder) (log : String) (k : Nat) (bytes : List UInt8) : Prop :=
  ∃ n, IsFileOf log k n ∧ d.Holds n bytes

end LogFolder

namespace LogWriter

/-- The writer and the directory after some writes, the failing ones included. -/
def writeAll (w : LogWriter) (d : LogFolder) : List LogWrite → LogWriter × LogFolder
  | [] => (w, d)
  | x :: xs =>
    let (w, d) := w.write x.refuses x.now x.bytes d
    w.writeAll d xs

/-- The bytes go to the open file, and not to the error stream. -/
def Accepts (w : LogWriter) (x : LogWrite) : Prop := w.fallback = false ∧ x.refuses .write = false

/-- The directory with the bytes in the open file. -/
def written (w : LogWriter) (d : LogFolder) (x : LogWrite) : LogFolder :=
  d.write w.file w.place x.bytes

/-- The pruning after the write removes a file with the bytes, as one of the oldest. -/
def Prunes (bytes : List UInt8) (w : LogWriter) (d : LogFolder) (x : LogWrite) : Prop :=
  w.Accepts x ∧ w.fills x = true ∧
    w.rotator.Prunes x.refuses x.now w.name (w.written d x) bytes

/-- After the write the log file takes the place of a file with the bytes, whose name it gets. -/
def Replaces (bytes : List UInt8) (w : LogWriter) (d : LogFolder) (x : LogWrite) : Prop :=
  w.Accepts x ∧ w.fills x = true ∧ w.rotator.Replaces x.refuses x.now w.name (w.written d x) bytes

/-- The pruning after the write fails when the open file has been compressed or removed. -/
def Strays (w : LogWriter) (d : LogFolder) (x : LogWrite) : Prop :=
  w.Accepts x ∧ w.fills x = true ∧
    w.rotator.Strays x.refuses x.now w.name (w.written d x) w.file

/-- At one of the writes, something happens. -/
def Sometime (P : LogWriter → LogFolder → LogWrite → Prop) (w : LogWriter) (d : LogFolder) :
    List LogWrite → Prop
  | [] => False
  | x :: xs =>
    P w d x ∨
      Sometime P (w.write x.refuses x.now x.bytes d).1 (w.write x.refuses x.now x.bytes d).2 xs

/-- What holds of a writer and its directory when `k` files have been set aside. -/
structure Attends (log : String) (k : Nat) (w : LogWriter) (d : LogFolder) : Prop where
  name : w.name = log
  sequence : w.rotator.sequence = k % (Text.u32Max + 1)
  sound : d.Sound
  active : d.entry? log = none ∨ d.entry? log = some (.file w.file)
  own : ∀ n, d.entry? n = some (.file w.file) → LogFolder.IsFileOf log k n
  content : ∃ f, d.files[w.file]? = some f ∧ (w.place = none ∨ w.place = some f.bytes.length)

end LogWriter

/-! ## Names and bytes -/

namespace LogFolder

variable {d d' : LogFolder} {log n : String} {j k : Nat} {bytes : List UInt8}

theorem IsFileOf.mono (h : IsFileOf log k n) (hle : k ≤ j) : IsFileOf log j n :=
  h.imp_right fun ⟨t, i, x, hi, hx, hn⟩ => ⟨t, i, x, Nat.le_trans hi hle, hx, hn⟩

theorem Keeps.mono (h : d.Keeps log k bytes) (hle : k ≤ j) : d.Keeps log j bytes :=
  h.imp fun _ h => ⟨h.1.mono hle, h.2⟩

end LogFolder

namespace Rotator

variable {r : Rotator} {now : Instant} {log n : String} {k : Nat}

theorem next_sequence (h : r.sequence = k % (Text.u32Max + 1)) :
    r.next.sequence = (k + 1) % (Text.u32Max + 1) := by
  unfold next
  rw [h, Nat.mod_add_mod]

theorem isFileOf_target (now : Instant) (log : String) (h : r.sequence = k % (Text.u32Max + 1))
    {x : String} (hx : LogFolder.IsPackMark x) :
    LogFolder.IsFileOf log (k + 1) (r.target now log ++ x) := by
  refine .inr ⟨now, k + 1, x, Nat.le_refl _, hx, ?_⟩
  unfold target
  rw [next_sequence h]

theorem isFileOf_target_plain (now : Instant) (log : String)
    (h : r.sequence = k % (Text.u32Max + 1)) :
    LogFolder.IsFileOf log (k + 1) (r.target now log) := by
  have hfile := isFileOf_target now log h (.inl rfl)
  rwa [String.append_empty] at hfile

/-- The first ten thousand names are new. -/
theorem le_of_target (h : r.sequence = k % (Text.u32Max + 1)) (hn : LogFolder.IsFileOf log k n)
    {x : String} (hx : LogFolder.IsPackMark x) (htarget : n = r.target now log ++ x) :
    9999 ≤ k := by
  rcases hn with rfl | ⟨t, j, y, hj, hy, rfl⟩
  · exact absurd htarget (r.log_ne_target now n)
  · have hsame := LogFolder.sequence_of_rotatedName_eq hy hx htarget
    rw [next_sequence h] at hsame
    unfold Text.u32Max at hsame
    omega

end Rotator

namespace LogWriter

variable {log n : String} {k : Nat} {w w' : LogWriter} {d d' : LogFolder} {x : LogWrite}
  {bytes : List UInt8}

theorem Attends.file_lt (h : w.Attends log k d) : w.file < d.files.length := by
  obtain ⟨f, hread, -⟩ := h.content
  exact (List.getElem?_eq_some_iff.mp hread).1

/-! ## Bytes go to the open file -/

theorem Attends.getElem?_written (h : w.Attends log k d) (x : LogWrite) :
    ∃ f, d.files[w.file]? = some f ∧
      (w.written d x).files[w.file]? = some { f with bytes := f.bytes ++ x.bytes } := by
  obtain ⟨f, hread, hplace⟩ := h.content
  refine ⟨f, hread, ?_⟩
  unfold written LogFolder.write
  rw [List.getElem?_modify_eq, hread]
  exact congrArg (fun b => some { f with bytes := b }) (LogFolder.overwrite_end hplace x.bytes)

theorem getElem?_written_of_ne (w : LogWriter) (d : LogFolder) (x : LogWrite) {i : Nat}
    (hi : i ≠ w.file) : (w.written d x).files[i]? = d.files[i]? :=
  List.getElem?_modify_ne _ _ hi.symm

theorem Attends.written (h : w.Attends log k d) (x : LogWrite) :
    (w.after x.bytes).Attends log k (w.written d x) where
  name := h.name
  sequence := h.sequence
  sound := (h.sound.write _ _ _).1
  active := h.active
  own := h.own
  content := by
    obtain ⟨f, hread, hwritten⟩ := h.getElem?_written x
    obtain ⟨f', hread', hplace⟩ := h.content
    obtain rfl := Option.some.inj (hread.symm.trans hread')
    refine ⟨_, hwritten, ?_⟩
    unfold after
    rcases hplace with hnone | hend
    · exact .inl (by rw [hnone]; rfl)
    · exact .inr (by rw [hend, List.length_append]; rfl)

theorem Attends.holds_written (h : w.Attends log k d) (x : LogWrite) (hbytes : d.Holds n bytes) :
    (w.written d x).Holds n bytes := by
  obtain ⟨i, f, hentry, hread, hin⟩ := LogFolder.holds_iff.mp hbytes
  by_cases hi : i = w.file
  · obtain ⟨f', hread', hwritten⟩ := h.getElem?_written x
    obtain rfl := Option.some.inj (hread.symm.trans (hi ▸ hread'))
    exact LogFolder.holds_iff.mpr
      ⟨i, _, hentry, hi ▸ hwritten, hin.trans (List.prefix_append _ _).isInfix⟩
  · exact LogFolder.holds_iff.mpr
      ⟨i, f, hentry, (getElem?_written_of_ne w d x hi).trans hread, hin⟩

theorem Attends.keeps_written (h : w.Attends log k d) (hname : d.HasName w.file) (x : LogWrite) :
    (w.written d x).Keeps log k x.bytes := by
  obtain ⟨n, hentry⟩ := hname
  obtain ⟨f, -, hwritten⟩ := h.getElem?_written x
  exact ⟨n, h.own n hentry, LogFolder.holds_iff.mpr
    ⟨_, _, hentry, hwritten, (List.suffix_append _ _).isInfix⟩⟩

/-! ## Rotations -/

theorem Attends.shrink (h : w.Attends log k d) (hfiles : d'.files = d.files)
    (hentries : ∀ n e, d'.entry? n = some e → d.entry? n = some e) : w.Attends log k d' where
  name := h.name
  sequence := h.sequence
  sound := (h.sound.shrink (Nat.le_of_eq (by rw [hfiles])) fun n _ => hentries n _).1
  active := by
    cases hentry : d'.entry? log with
    | none => exact .inl rfl
    | some e =>
      rw [← hentry]
      rcases h.active with hnone | hsome
      · rw [hentries log e hentry] at hnone
        cases hnone
      · rw [← hsome, hentry, hentries log e hentry]
        exact .inr rfl
  own n hn := h.own n (hentries n _ hn)
  content := by
    rw [hfiles]
    exact h.content

theorem Attends.attends_aside {moved : Except LogError (Option String)} {now : Instant}
    {r : Rotator} {m : Nat} (h : w.Attends log k d)
    (haside : w.rotator.Aside now log d moved r d') (hle : k ≤ m)
    (hsequence : r.sequence = m % (Text.u32Max + 1)) (hcount : r = w.rotator.next → m = k + 1)
    (size : Nat) : Attends log m { w with size := size, rotator := r } d' where
  name := h.name
  sequence := hsequence
  sound := (haside.sound h.sound).1
  active := by
    rcases haside.entry?_log with hnone | ⟨rfl, -⟩
    · exact .inl hnone
    · exact h.active
  own n hn := by
    rcases haside.entry?_open h.sound h.active hn with hold | ⟨hnext, rfl⟩
    · exact (h.own n hold).mono hle
    · rw [hcount hnext]
      exact Rotator.isFileOf_target_plain now log h.sequence
  content := by
    have hcontent := haside.files_open h.sound h.active h.file_lt
    rw [hcontent]
    exact h.content

theorem Attends.keeps_aside {moved : Except LogError (Option String)} {now : Instant}
    {r : Rotator} {m : Nat} (h : w.Attends log k d)
    (haside : w.rotator.Aside now log d moved r d') (hle : k ≤ m)
    (hcount : r = w.rotator.next → m = k + 1) (hkeeps : d.Keeps log k bytes) :
    d'.Keeps log m bytes ∨ 9999 ≤ k ∧ ∃ n, d.Holds n bytes ∧
      (n = w.rotator.target now log ∨ n = w.rotator.target now log ++ ".gz") ∧
        ¬ d'.Holds n bytes := by
  obtain ⟨n, hn, hbytes⟩ := hkeeps
  by_cases htaken : n = w.rotator.target now log ∨ n = w.rotator.target now log ++ ".gz"
  · by_cases hstill : d'.Holds n bytes
    · exact .inl ⟨n, hn.mono hle, hstill⟩
    · -- Only a name that was given before can be given again.
      refine .inr ⟨?_, n, hbytes, htaken, hstill⟩
      rcases htaken with htaken | htaken
      · exact Rotator.le_of_target h.sequence hn (.inl rfl) (by rwa [String.append_empty])
      · exact Rotator.le_of_target h.sequence hn (.inr rfl) htaken
  · rw [not_or] at htaken
    obtain ⟨n', hn', hcases⟩ := haside.holds h.sound hbytes htaken.1 htaken.2
    refine .inl ⟨n', ?_, hn'⟩
    rcases hcases with rfl | ⟨hnext, rfl | rfl⟩
    · exact hn.mono hle
    · rw [hcount hnext]
      exact Rotator.isFileOf_target_plain now log h.sequence
    · rw [hcount hnext]
      exact Rotator.isFileOf_target now log h.sequence (.inr rfl)

theorem Attends.exists_count {moved : Except LogError (Option String)} {now : Instant}
    {r : Rotator} (h : w.Attends log k d) (haside : w.rotator.Aside now log d moved r d') :
    ∃ m, k ≤ m ∧ m ≤ k + 1 ∧ r.sequence = m % (Text.u32Max + 1) ∧
      (r = w.rotator.next → m = k + 1) := by
  by_cases hnext : r = w.rotator.next
  · refine ⟨k + 1, Nat.le_succ k, Nat.le_refl _, ?_, fun _ => rfl⟩
    rw [hnext, Rotator.next_sequence h.sequence]
  · refine ⟨k, Nat.le_refl k, Nat.le_succ k, ?_, fun heq => absurd heq hnext⟩
    rw [haside.rotator.resolve_right hnext, h.sequence]

theorem Attends.prune {r : Rotator} {refuses : FileOp → Bool} {all : Bool} (h : w.Attends log k d)
    (hprune : r.prune refuses log d = (all, d')) :
    w.Attends log k d' ∧ d'.Follows d ∧ ∀ bytes, d.Keeps log k bytes → d'.Keeps log k bytes ∨
      ∃ n, d.Holds n bytes ∧ n ∈ d.excess log r.rotation.maxFiles ∧ d'.entry? n = none := by
  obtain ⟨gone, hgone, -, hfiles, hentries⟩ := Rotator.prune_cases hprune
  have hleft (n : String) (e : LogEntry) (hn : d'.entry? n = some e) : d.entry? n = some e :=
    Rotator.entry?_of_prune hprune hn
  have hfollows := (h.sound.shrink (Nat.le_of_eq (by rw [hfiles])) fun n _ => hleft n _).2
  refine ⟨h.shrink hfiles hleft, hfollows, fun bytes ⟨n, hn, hbytes⟩ => ?_⟩
  by_cases hmem : n ∈ gone
  · exact .inr ⟨n, hbytes, hgone.subset hmem, by rw [hentries, if_pos hmem]⟩
  · refine .inl ⟨n, hn, hbytes.moved ?_ fun _ _ => by rw [hfiles]⟩
    rw [hentries, if_neg hmem]

theorem Attends.reopen (h : w.Attends log k d) (hnone : d.entry? log = none)
    (refuses : FileOp → Bool) :
    Attends log k (w.reopen refuses d).1 (w.reopen refuses d).2 ∧
      (w.reopen refuses d).2.Follows d ∧
      (∀ bytes, d.Keeps log k bytes → (w.reopen refuses d).2.Keeps log k bytes) ∧
      ((w.reopen refuses d).1.fallback = false →
        (w.reopen refuses d).2.HasName (w.reopen refuses d).1.file) := by
  obtain rfl := h.name
  unfold LogWriter.reopen
  split
  · rename_i id d₁ hopen _
    have hopens := h.sound.opens_openFile hopen
    obtain ⟨hsound, hfollows⟩ := h.sound.opens hopens
    have hentry : d₁.entry? w.name = some (.file id) := by rw [hopens.entries, if_pos rfl]
    refine ⟨⟨rfl, h.sequence, hsound, .inr hentry, fun n hn => ?_, ?_⟩, hfollows,
      fun bytes hkeeps => ?_, fun _ => ⟨w.name, hentry⟩⟩
    · exact .inl (hsound.single n w.name id hn hentry)
    · obtain ⟨rfl, rfl⟩ := LogFolder.openFile?_of_none hnone hopen
      exact ⟨_, List.getElem?_concat_length, .inl rfl⟩
    · obtain ⟨n, hn, hbytes⟩ := hkeeps
      refine ⟨n, hn, hbytes.opens h.sound hopens ?_⟩
      rintro rfl
      obtain ⟨i, f, hi, -⟩ := LogFolder.holds_iff.mp hbytes
      rw [hnone] at hi
      cases hi
  · exact ⟨⟨rfl, h.sequence, h.sound, h.active, h.own, h.content⟩, .refl d,
      fun _ hkeeps => hkeeps, fun hgoing => nomatch hgoing⟩

theorem renew_of_unpruned {refuses : FileOp → Bool} {now : Instant} {moved : Option String}
    {r : Rotator} {d₁ d₂ : LogFolder}
    (hset : w.rotator.setAside refuses now w.name d = (.ok moved, r, d₁))
    (hprune : r.prune refuses w.name d₁ = (false, d₂)) :
    w.renew refuses now d = ({ w with size := 0, rotator := r }, d₂) := by
  unfold renew Rotator.rotate
  rw [hset]
  simp only [hprune]

theorem renew_cases (w : LogWriter) (refuses : FileOp → Bool) (now : Instant) (d : LogFolder) :
    (∃ e r d₁, w.rotator.setAside refuses now w.name d = (.error e, r, d₁) ∧
      w.renew refuses now d = ({ w with size := 0, rotator := r }, d₁)) ∨
    (∃ moved r d₁ d₂, w.rotator.setAside refuses now w.name d = (.ok moved, r, d₁) ∧
      r.prune refuses w.name d₁ = (false, d₂) ∧
      w.renew refuses now d = ({ w with size := 0, rotator := r }, d₂)) ∨
    ∃ moved r d₁ d₂, w.rotator.setAside refuses now w.name d = (.ok moved, r, d₁) ∧
      r.prune refuses w.name d₁ = (true, d₂) ∧
      w.renew refuses now d = LogWriter.reopen { w with size := 0, rotator := r } refuses d₂ := by
  rcases hset : w.rotator.setAside refuses now w.name d with ⟨e | moved, r, d₁⟩
  · refine .inl ⟨e, r, d₁, rfl, ?_⟩
    unfold renew Rotator.rotate
    rw [hset]
  · rcases hprune : r.prune refuses w.name d₁ with ⟨_ | _, d₂⟩
    · exact .inr (.inl ⟨moved, r, d₁, d₂, rfl, hprune, renew_of_unpruned hset hprune⟩)
    · refine .inr (.inr ⟨moved, r, d₁, d₂, rfl, hprune, ?_⟩)
      unfold renew Rotator.rotate
      rw [hset]
      simp only [hprune]

theorem entry?_log_pruned {r r' : Rotator} {refuses : FileOp → Bool} {now : Instant}
    {moved : Option String} {all : Bool} {d₁ d₂ : LogFolder}
    (haside : r.Aside now log d (.ok moved) r' d₁) (hprune : r'.prune refuses log d₁ = (all, d₂)) :
    d₂.entry? log = none := by
  obtain ⟨gone, -, -, -, hentries⟩ := Rotator.prune_cases hprune
  rw [hentries, haside.entry?_log.resolve_right fun h => nomatch h.2]
  exact ite_self none

theorem Attends.renew (h : w.Attends log k d) (refuses : FileOp → Bool) (now : Instant) :
    ∃ k', k ≤ k' ∧ k' ≤ k + 1 ∧
      Attends log k' (w.renew refuses now d).1 (w.renew refuses now d).2 ∧
      (w.renew refuses now d).2.Follows d ∧
      ∀ bytes, d.Keeps log k bytes → (w.renew refuses now d).2.Keeps log k' bytes ∨
        w.rotator.Prunes refuses now log d bytes ∨
          9999 ≤ k ∧ w.rotator.Replaces refuses now log d bytes := by
  obtain rfl := h.name
  rcases w.renew_cases refuses now d with ⟨e, r, d₁, hset, hrenew⟩ |
    ⟨moved, r, d₁, d₂, hset, hprune, hrenew⟩ | ⟨moved, r, d₁, d₂, hset, hprune, hrenew⟩
  -- However far the rotation gets, the log file was to be set aside first.
  all_goals
    have haside := Rotator.aside_setAside h.sound hset
    obtain ⟨k', hle, hle', hsequence, hcount⟩ := h.exists_count haside
    have hattends := h.attends_aside haside hle hsequence hcount 0
    have hmoved (bytes : List UInt8) (hkeeps : d.Keeps w.name k bytes) :=
      h.keeps_aside haside hle hcount hkeeps
    have hfollows := (haside.sound h.sound).2
    have hreplaced {bytes : List UInt8} (hgone : 9999 ≤ k ∧ ∃ n, d.Holds n bytes ∧
        (n = w.rotator.target now w.name ∨ n = w.rotator.target now w.name ++ ".gz") ∧
          ¬ d₁.Holds n bytes) : 9999 ≤ k ∧ w.rotator.Replaces refuses now w.name d bytes := by
      obtain ⟨hmany, n, hn, htarget, hgone⟩ := hgone
      exact ⟨hmany, n, hn, htarget, by rw [hset]; exact hgone⟩
    rw [hrenew]
  · exact ⟨k', hle, hle', hattends, hfollows,
      fun bytes hkeeps => (hmoved bytes hkeeps).imp_right fun hgone => .inr (hreplaced hgone)⟩
  -- The other two go on to remove the oldest files.
  all_goals
    obtain ⟨hpruned, hfollows', hleft⟩ := hattends.prune hprune
    have hremoved {bytes : List UInt8} (hgone : ∃ n, d₁.Holds n bytes ∧
        n ∈ d₁.excess w.name r.rotation.maxFiles ∧ d₂.entry? n = none) :
        w.rotator.Prunes refuses now w.name d bytes := by
      obtain ⟨n, hn, hold, hgone⟩ := hgone
      exact ⟨moved, r, d₁, n, hset, hn, hold, by rw [hprune]; exact hgone⟩
  · refine ⟨k', hle, hle', hpruned, hfollows'.trans hfollows, fun bytes hkeeps => ?_⟩
    rcases hmoved bytes hkeeps with hkeeps | hgone
    · exact (hleft bytes hkeeps).imp_right fun hgone => .inl (hremoved hgone)
    · exact .inr (.inr (hreplaced hgone))
  · have hnone := entry?_log_pruned haside hprune
    obtain ⟨hreopened, hfollows'', hkept, -⟩ := hpruned.reopen hnone refuses
    refine ⟨k', hle, hle', hreopened, hfollows''.trans (hfollows'.trans hfollows),
      fun bytes hkeeps => ?_⟩
    rcases hmoved bytes hkeeps with hkeeps | hgone
    · exact (hleft bytes hkeeps).imp (hkept bytes) fun hgone => .inl (hremoved hgone)
    · exact .inr (.inr (hreplaced hgone))

theorem Attends.hasName_renew_iff (h : w.Attends log k d) (hname : d.HasName w.file)
    (refuses : FileOp → Bool) (now : Instant)
    (hgoing : (w.renew refuses now d).1.fallback = false) :
    (w.renew refuses now d).2.HasName (w.renew refuses now d).1.file ↔
      ¬ w.rotator.Strays refuses now log d w.file := by
  obtain rfl := h.name
  rcases w.renew_cases refuses now d with ⟨e, r, d₁, hset, hrenew⟩ |
    ⟨moved, r, d₁, d₂, hset, hprune, hrenew⟩ | ⟨moved, r, d₁, d₂, hset, hprune, hrenew⟩
  all_goals
    have haside := Rotator.aside_setAside h.sound hset
    rw [hrenew] at hgoing ⊢
  · refine iff_of_true ((haside.hasName_iff h.sound h.active).mpr ⟨hname, nofun⟩) ?_
    rintro ⟨_, _, _, _, hset', -⟩
    cases hset.symm.trans hset'
  · exact Rotator.hasName_pruned_iff h.sound h.active hname hset hprune
  · obtain ⟨k', hle, -, hsequence, hcount⟩ := h.exists_count haside
    obtain ⟨hpruned, -⟩ := (h.attends_aside haside hle hsequence hcount 0).prune hprune
    obtain ⟨-, -, -, hnamed⟩ := hpruned.reopen (entry?_log_pruned haside hprune) refuses
    refine iff_of_true (hnamed hgoing) ?_
    rintro ⟨_, _, _, _, hset', hprune', -⟩
    cases hset.symm.trans hset'
    cases hprune.symm.trans hprune'

/-! ## Writes -/

theorem write_of_not_accepts (h : ¬ w.Accepts x) (d : LogFolder) :
    w.write x.refuses x.now x.bytes d = ({ w with fallback := true }, d) := by
  unfold write
  cases hgoing : w.fallback with
  | true =>
    rw [if_pos rfl]
    exact congrArg (fun fallback => ({ w with fallback := fallback }, d)) hgoing
  | false =>
    have hrefuses : x.refuses .write = true := by
      rw [← Bool.not_eq_false]
      exact fun hwritten => h ⟨hgoing, hwritten⟩
    rw [if_neg Bool.false_ne_true, if_pos hrefuses]

theorem write_of_full (h : w.Accepts x) (hfull : w.fills x = true) (d : LogFolder) :
    w.write x.refuses x.now x.bytes d =
      (w.after x.bytes).renew x.refuses x.now (w.written d x) := by
  rw [write_eq h.1 h.2, if_pos hfull]
  rfl

theorem write_of_unpruned {moved : Option String} {r : Rotator} {d₁ d₂ : LogFolder}
    (h : w.Accepts x) (hfull : w.fills x = true)
    (hset : w.rotator.setAside x.refuses x.now w.name (w.written d x) = (.ok moved, r, d₁))
    (hprune : r.prune x.refuses w.name d₁ = (false, d₂)) :
    w.write x.refuses x.now x.bytes d =
      ({ w.after x.bytes with size := 0, rotator := r }, d₂) := by
  rw [write_of_full h hfull]
  exact renew_of_unpruned hset hprune

theorem write_of_room (h : w.Accepts x) (hroom : w.fills x = false) (d : LogFolder) :
    w.write x.refuses x.now x.bytes d = (w.after x.bytes, w.written d x) := by
  rw [write_eq h.1 h.2, hroom, if_neg Bool.false_ne_true]
  rfl

theorem Attends.write (h : w.Attends log k d) (x : LogWrite) :
    ∃ k', k ≤ k' ∧ k' ≤ k + 1 ∧
      Attends log k' (w.write x.refuses x.now x.bytes d).1 (w.write x.refuses x.now x.bytes d).2 ∧
      (w.write x.refuses x.now x.bytes d).2.Follows d ∧
      ∀ bytes, (d.Keeps log k bytes ∨ w.Accepts x ∧ d.HasName w.file ∧ bytes = x.bytes) →
        (w.write x.refuses x.now x.bytes d).2.Keeps log k' bytes ∨ w.Prunes bytes d x ∨
          9999 ≤ k ∧ w.Replaces bytes d x := by
  by_cases haccepts : w.Accepts x
  · have hwritten := h.written x
    have hfollows := (h.sound.write w.file w.place x.bytes).2
    have hbytes {bytes : List UInt8}
        (hkeeps : d.Keeps log k bytes ∨ w.Accepts x ∧ d.HasName w.file ∧ bytes = x.bytes) :
        (w.written d x).Keeps log k bytes := by
      rcases hkeeps with ⟨n, hn, hin⟩ | ⟨-, hname, rfl⟩
      · exact ⟨n, hn, h.holds_written x hin⟩
      · exact h.keeps_written hname x
    -- Once written, the bytes are in danger only of a rotation that follows the write.
    cases hfills : w.fills x with
    | false =>
      rw [write_of_room haccepts hfills]
      exact ⟨k, Nat.le_refl k, Nat.le_succ k, hwritten, hfollows, fun _ hk => .inl (hbytes hk)⟩
    | true =>
      obtain ⟨k', hle, hle', hattends, hfollows', hkept⟩ := hwritten.renew x.refuses x.now
      rw [write_of_full haccepts hfills]
      refine ⟨k', hle, hle', hattends, hfollows'.trans hfollows, fun bytes hk => ?_⟩
      rw [← h.name] at hkept ⊢
      rcases hkept bytes (h.name ▸ hbytes hk) with hkeeps | hpruned | ⟨hmany, hreplaced⟩
      · exact .inl hkeeps
      · exact .inr (.inl ⟨haccepts, hfills, hpruned⟩)
      · exact .inr (.inr ⟨hmany, haccepts, hfills, hreplaced⟩)
  · rw [write_of_not_accepts haccepts]
    refine ⟨k, Nat.le_refl k, Nat.le_succ k,
      ⟨h.name, h.sequence, h.sound, h.active, h.own, h.content⟩, .refl d, fun bytes hkeeps => ?_⟩
    exact .inl (hkeeps.resolve_right fun hnot => haccepts hnot.1)

theorem Attends.hasName_write_iff (h : w.Attends log k d) (hname : d.HasName w.file)
    (haccepts : w.Accepts x) (hgoing : (w.write x.refuses x.now x.bytes d).1.fallback = false) :
    (w.write x.refuses x.now x.bytes d).2.HasName (w.write x.refuses x.now x.bytes d).1.file ↔
      ¬ w.Strays d x := by
  cases hfills : w.fills x with
  | false =>
    rw [write_of_room haccepts hfills]
    refine iff_of_true hname ?_
    rintro ⟨-, hfull, -⟩
    rw [hfills] at hfull
    cases hfull
  | true =>
    rw [write_of_full haccepts hfills] at hgoing ⊢
    have hnamed := (h.written x).hasName_renew_iff hname x.refuses x.now hgoing
    rw [hnamed, ← h.name]
    exact not_congr ⟨fun hstrays => ⟨haccepts, hfills, hstrays⟩, fun hstrays => hstrays.2.2⟩

/-! ## Courses of writes -/

theorem fallback_writeAll (h : w.fallback = true) (d : LogFolder) (xs : List LogWrite) :
    (w.writeAll d xs).1.fallback = true := by
  induction xs generalizing w d with
  | nil => exact h
  | cons x xs ih =>
    have hnot : ¬ w.Accepts x := fun haccepts => by
      rw [haccepts.1] at h
      cases h
    unfold writeAll
    rw [write_of_not_accepts hnot]
    exact ih rfl d

/-- What all writes keep: what could be read before them, and the bytes of the first one. -/
theorem Attends.writeAll (h : w.Attends log k d) (xs : List LogWrite) :
    ∃ k', k' ≤ k + xs.length ∧ Attends log k' (w.writeAll d xs).1 (w.writeAll d xs).2 ∧
      (w.writeAll d xs).2.Follows d ∧
      ∀ bytes, (d.Keeps log k bytes ∨
          ∃ x ∈ xs.head?, w.Accepts x ∧ d.HasName w.file ∧ bytes = x.bytes) →
        (w.writeAll d xs).2.Keeps log k' bytes ∨ w.Sometime (Prunes bytes) d xs ∨
          10000 ≤ k + xs.length ∧ w.Sometime (Replaces bytes) d xs := by
  induction xs generalizing w d k with
  | nil =>
    refine ⟨k, Nat.le_refl k, h, .refl d, fun bytes hkeeps => .inl ?_⟩
    exact hkeeps.resolve_right fun ⟨_, hx, _⟩ => nomatch hx
  | cons x xs ih =>
    obtain ⟨m, -, hm, hattends, hfollows, hkept⟩ := h.write x
    obtain ⟨k', hk', hattends', hfollows', hkept'⟩ := ih hattends
    have hlength : m + xs.length ≤ k + (x :: xs).length := by
      rw [List.length_cons]
      omega
    refine ⟨k', Nat.le_trans hk' hlength, hattends', hfollows'.trans hfollows, fun bytes hk => ?_⟩
    have hfirst : d.Keeps log k bytes ∨ w.Accepts x ∧ d.HasName w.file ∧ bytes = x.bytes :=
      hk.imp_right fun ⟨_, hx, hbytes⟩ => Option.some.inj hx ▸ hbytes
    rcases hkept bytes hfirst with hkeeps | hpruned | ⟨hmany, hreplaced⟩
    · rcases hkept' bytes (.inl hkeeps) with hkeeps | hpruned | ⟨hmany, hreplaced⟩
      · exact .inl hkeeps
      · exact .inr (.inl (.inr hpruned))
      · exact .inr (.inr ⟨Nat.le_trans hmany hlength, .inr hreplaced⟩)
    · exact .inr (.inl (.inl hpruned))
    · refine .inr (.inr ⟨?_, .inl hreplaced⟩)
      rw [List.length_cons]
      omega

theorem Attends.hasName_writeAll (h : w.Attends log k d) (hname : d.HasName w.file)
    {xs : List LogWrite} (hgoing : (w.writeAll d xs).1.fallback = false)
    (hstrays : ¬ w.Sometime Strays d xs) :
    (w.writeAll d xs).2.HasName (w.writeAll d xs).1.file := by
  induction xs generalizing w d k with
  | nil => exact hname
  | cons x xs ih =>
    -- A writer never comes back from the error stream, so it takes each of these writes.
    have hnext : (w.write x.refuses x.now x.bytes d).1.fallback = false := by
      rw [← Bool.not_eq_true]
      intro hfallback
      have hend := fallback_writeAll hfallback (w.write x.refuses x.now x.bytes d).2 xs
      exact Bool.false_ne_true (hgoing.symm.trans hend)
    have haccepts : w.Accepts x := by
      by_contra hnot
      rw [write_of_not_accepts hnot] at hnext
      cases hnext
    obtain ⟨hnow, hlater⟩ := not_or.mp hstrays
    obtain ⟨m, -, -, hattends, -⟩ := h.write x
    exact ih hattends ((h.hasName_write_iff hname haccepts hnext).mpr hnow) hgoing hlater

theorem attends_new {config : LogFileConfig} (hd : d.Sound)
    (hnew : LogWriter.new config log d = .ok (w, d')) :
    w.Attends log 0 d' ∧ d'.HasName w.file ∧ w.fallback = false := by
  unfold LogWriter.new at hnew
  split at hnew
  · rename_i id d₁ hopen
    cases hnew
    have hopens := hd.opens_openFile hopen
    have hsound := (hd.opens hopens).1
    have hentry : d'.entry? log = some (.file id) := by rw [hopens.entries, if_pos rfl]
    refine ⟨⟨rfl, rfl, hsound, .inr hentry, fun n hn => ?_, ?_⟩, ⟨log, hentry⟩, rfl⟩
    · exact .inl (hsound.single n log id hn hentry)
    · cases happend : config.append with
      | true => exact ⟨_, List.getElem?_eq_getElem hopens.range, .inl rfl⟩
      | false =>
        -- A file that is not kept is empty at first.
        rw [happend] at hopen
        have hempty : d'.files[id]? = some ⟨false, []⟩ := by
          rcases LogFolder.openFile?_eq_some hopen with ⟨hfound, rfl⟩ | ⟨-, rfl, rfl⟩
          · exact List.getElem?_set_self (hd.files log id hfound)
          · exact List.getElem?_concat_length
        exact ⟨_, hempty, .inr rfl⟩
  · cases hnew

end LogWriter

theorem LoggerConfig.attends_openFile {c : LoggerConfig} {t : FileTree} {w : LogWriter}
    {d : LogFolder} (hopen : c.openFile t = .ok (some (w, d))) :
    w.Attends w.name 0 d ∧ d.HasName w.file ∧ w.fallback = false := by
  unfold openFile at hopen
  split at hopen
  · simp only at hopen
    split at hopen
    · rename_i d₀ hmake
      cases hnew : LogWriter.new c.file (LogFolder.placeOf c.file.path).2 d₀ with
      | error e =>
        rw [hnew] at hopen
        cases hopen
      | ok opened =>
        rw [hnew] at hopen
        obtain rfl : opened = (w, d) := Option.some.inj (Except.ok.inj hopen)
        have hattends := LogWriter.attends_new (LogFolder.sound_makeIn hmake) hnew
        rwa [← hattends.1.name] at hattends
    · cases hopen
  · cases hopen

/-- Bytes that go to the open file while it has a name are found in the log file or in a file that
was set aside, whatever fails on the way, until a pruning removes that file as one of the oldest;
from the ten thousandth rotation on, its name may also be given to another. The open file has a name
until a rotation takes it, and in one way only; a file without a name gets none again. -/
theorem log_keeps_bytes {c : LoggerConfig} {t : FileTree} {w₁ w : LogWriter} {d₁ d : LogFolder}
    (hopen : c.openFile t = .ok (some (w₁, d₁))) {before : List LogWrite}
    (hbefore : w₁.writeAll d₁ before = (w, d)) {x : LogWrite} (hx : w.Accepts x)
    (later : List LogWrite) :
    (¬ w₁.Sometime LogWriter.Strays d₁ before → d.HasName w.file) ∧
      (d.HasName w.file →
        (w.writeAll d (x :: later)).2.Keeps w.name (before ++ x :: later).length x.bytes ∨
          w.Sometime (LogWriter.Prunes x.bytes) d (x :: later) ∨
          10000 ≤ (before ++ x :: later).length ∧
            w.Sometime (LogWriter.Replaces x.bytes) d (x :: later)) ∧
      (¬ d.HasName w.file → ¬ (w.writeAll d (x :: later)).2.HasName w.file) ∧
      (d.HasName w.file → (w.write x.refuses x.now x.bytes d).1.fallback = false →
        ((w.write x.refuses x.now x.bytes d).2.HasName
            (w.write x.refuses x.now x.bytes d).1.file ↔ ¬ w.Strays d x)) := by
  obtain ⟨hstart, hnamed, -⟩ := c.attends_openFile hopen
  obtain ⟨k, hk, hattends, -⟩ := hstart.writeAll before
  rw [hbefore] at hattends
  rw [← show w.name = w₁.name from hattends.name] at hattends
  obtain ⟨k', hk', -, hfollows, hkept⟩ := hattends.writeAll (x :: later)
  have hlength : k + (x :: later).length ≤ (before ++ x :: later).length := by
    rw [List.length_append]
    omega
  refine ⟨fun hstrays => ?_, fun hname => ?_, fun hnone hname => ?_,
    fun hname hgoing => hattends.hasName_write_iff hname hx hgoing⟩
  · have hend := hstart.hasName_writeAll hnamed (by rw [hbefore]; exact hx.1) hstrays
    rwa [hbefore] at hend
  · rcases hkept x.bytes (.inr ⟨x, rfl, hx, hname, rfl⟩) with hkeeps | hpruned | ⟨hmany, hreplaced⟩
    · exact .inl (hkeeps.mono (Nat.le_trans hk' hlength))
    · exact .inr (.inl hpruned)
    · exact .inr (.inr ⟨Nat.le_trans hmany hlength, hreplaced⟩)
  · exact hnone (hfollows.named w.file hattends.file_lt hname)

/-- A folder in the way of the pruning stops the rotation, and the next write goes on in the file
that was set aside. -/
theorem log_keeps_bytes_beside_folder :
    let config : LoggerConfig :=
      { file := { enabled := true, path := "d/app.log", rotation := ⟨true, 4, 2, false⟩ } }
    let t : FileTree := .ofPaths [("d/app.1/x", "")]
    let first : LogWrite := ⟨.epoch, [97, 98, 99, 100], fun _ => false⟩
    let second : LogWrite := ⟨.epoch, [101, 102], fun _ => false⟩
    ∃ w₁ d₁ w d, config.openFile t = .ok (some (w₁, d₁)) ∧ w₁.writeAll d₁ [first] = (w, d) ∧
      w.Accepts second ∧ d.entry? "app.log" = none ∧ d.HasName w.file ∧
      (w.writeAll d [second]).2.Keeps "app.log" 2 [101, 102] := by
  intro config t first second
  let w₁ : LogWriter := ⟨"app.log", ⟨⟨true, 4, 2, false⟩, 0⟩, 0, none, 0, false⟩
  let d₁ : LogFolder := ⟨[("app.1", .folder), ("app.log", .file 0)], [⟨false, []⟩]⟩
  let w : LogWriter := ⟨"app.log", ⟨⟨true, 4, 2, false⟩, 1⟩, 0, none, 0, false⟩
  let d : LogFolder := ⟨[("app.1", .folder), ("app.19700101_000000000_0001.log", .file 0)],
    [⟨false, [97, 98, 99, 100]⟩]⟩
  have hopen : config.openFile t = .ok (some (w₁, d₁)) := by
    unfold config t w₁ d₁
    rfl
  have hset : w₁.rotator.setAside first.refuses first.now w₁.name (w₁.written d₁ first) =
      (.ok (some "app.19700101_000000000_0001.log"), w.rotator, d) := by
    unfold w₁ d₁ w d first
    rfl
  have hprune : w.rotator.prune first.refuses w₁.name d = (false, d) := by
    unfold Rotator.prune
    rw [LogFolder.rotations_of_ascending (by decide)]
    unfold w d w₁ first
    rfl
  have hbefore : w₁.writeAll d₁ [first] = (w, d) := by
    unfold LogWriter.writeAll
    rw [LogWriter.write_of_unpruned ⟨rfl, rfl⟩ rfl hset hprune]
    rfl
  have hname : d.HasName w.file := ⟨"app.19700101_000000000_0001.log", by decide⟩
  have hroom : w.fills second = false := by decide
  obtain ⟨-, hkept, -⟩ := log_keeps_bytes hopen hbefore (x := second) ⟨rfl, rfl⟩ []
  refine ⟨w₁, d₁, w, d, hopen, hbefore, ⟨rfl, rfl⟩, by decide, hname, ?_⟩
  rcases hkept hname with hkeeps | hpruned | ⟨-, hreplaced⟩
  · exact hkeeps
  · obtain ⟨-, hfull, -⟩ := hpruned.resolve_right id
    exact absurd (hfull.symm.trans hroom) nofun
  · obtain ⟨-, hfull, -⟩ := hreplaced.resolve_right id
    exact absurd (hfull.symm.trans hroom) nofun

/-- Where the file is compressed before that, the next write is taken, and nothing leads to its
bytes. -/
theorem log_loses_bytes_of_compressed_file :
    let _ : FilterRules := .plain
    let config : LoggerConfig :=
      { file := { enabled := true, path := "d/app.log", rotation := ⟨true, 4, 2, true⟩ } }
    let t : FileTree := .ofPaths [("d/app.1/x", "")]
    let first : LogWrite := ⟨.epoch, [97, 98, 99, 100], fun _ => false⟩
    let second : LogWrite := ⟨.epoch, [101, 102], fun _ => false⟩
    config.validate = .ok () ∧ ∃ w₁ d₁ w d w₂ d₂, config.openFile t = .ok (some (w₁, d₁)) ∧
      w₁.writeAll d₁ [first] = (w, d) ∧ w.Accepts second ∧
      w.writeAll d [second] = (w₂, d₂) ∧ w₂.fallback = false ∧
      (∀ n, ¬ d₂.Holds n [101, 102]) ∧
      ¬ w.Sometime (LogWriter.Prunes [101, 102]) d [second] := by
  intro _ config t first second
  let w₁ : LogWriter := ⟨"app.log", ⟨⟨true, 4, 2, true⟩, 0⟩, 0, none, 0, false⟩
  let d₁ : LogFolder := ⟨[("app.1", .folder), ("app.log", .file 0)], [⟨false, []⟩]⟩
  let w : LogWriter := ⟨"app.log", ⟨⟨true, 4, 2, true⟩, 1⟩, 0, none, 0, false⟩
  let entries : List (String × LogEntry) :=
    [("app.1", .folder), ("app.19700101_000000000_0001.log.gz", .file 1)]
  let d : LogFolder := ⟨entries, [⟨false, [97, 98, 99, 100]⟩, ⟨true, [97, 98, 99, 100]⟩]⟩
  let d₂ : LogFolder := ⟨entries, [⟨false, [97, 98, 99, 100, 101, 102]⟩, ⟨true, [97, 98, 99, 100]⟩]⟩
  have hopen : config.openFile t = .ok (some (w₁, d₁)) := by
    unfold config t w₁ d₁
    rfl
  have hset : w₁.rotator.setAside first.refuses first.now w₁.name (w₁.written d₁ first) =
      (.ok (some "app.19700101_000000000_0001.log.gz"), w.rotator, d) := by
    unfold w₁ d₁ w d entries first
    rfl
  have hprune : w.rotator.prune first.refuses w₁.name d = (false, d) := by
    unfold Rotator.prune
    rw [LogFolder.rotations_of_ascending (by decide)]
    unfold w d w₁ entries first
    rfl
  have hbefore : w₁.writeAll d₁ [first] = (w, d) := by
    unfold LogWriter.writeAll
    rw [LogWriter.write_of_unpruned ⟨rfl, rfl⟩ rfl hset hprune]
    rfl
  have hvalid : config.validate = .ok () := by
    unfold config
    rfl
  have hroom : w.fills second = false := by decide
  refine ⟨hvalid, w₁, d₁, w, d, { w with size := 2 }, d₂, hopen, hbefore, ⟨rfl, rfl⟩, rfl, rfl,
    fun n hn => ?_, fun hpruned => ?_⟩
  · obtain ⟨i, f, hentry, hread, hin⟩ := LogFolder.holds_iff.mp hn
    have hi : i = 1 := by
      unfold LogFolder.entry? d₂ entries at hentry
      simp only [List.lookup_cons] at hentry
      split at hentry
      · cases hentry
      · split at hentry <;> cases hentry
        rfl
    rw [hi] at hread
    obtain rfl : _ = f := Option.some.inj hread
    exact absurd (hin.subset List.mem_cons_self) (by decide)
  · obtain ⟨-, hfull, -⟩ := hpruned.resolve_right id
    exact absurd (hfull.symm.trans hroom) nofun

end Cadence
