import Cadence.Proofs.Log.Archive
import Cadence.Proofs.Log.Course

/-!
# The log in its files

Everything that is written to a log goes through the log file into the files set aside, in order and
in whole buffers. What a rotation takes away is the oldest of these files.
-/

namespace Cadence

/-- What is in the log file once it is opened. -/
def LogFileConfig.opened (c : LogFileConfig) (initial : List UInt8) : List UInt8 :=
  if c.append then initial else []

/-- The files that are left of those that were set aside. -/
def Rotation.left (r : Rotation) (past : List SetAside) : List SetAside :=
  past.drop (past.length - (r.maxFiles - 1))

theorem Rotation.left_nil (r : Rotation) : r.left [] = [] := List.drop_nil

theorem Rotation.left_append (r : Rotation) (past : List SetAside) (s : SetAside) :
    (r.left past ++ [s]).drop ((r.left past).length + 1 - (r.maxFiles - 1)) =
      r.left (past ++ [s]) := by
  unfold left
  rw [← List.drop_append_of_le_length (Nat.sub_le _ _), List.drop_drop, List.length_drop,
    List.length_append]
  congr 1
  have hone : [s].length = 1 := rfl
  omega

/-- The log in a directory: the files that were set aside, and the buffers in the log file. -/
structure LogStream (rule : Rotation) (log : String) (w : LogWriter) (d : LogFolder)
    (past : List SetAside) (current : List (List UInt8)) : Prop where
  name : w.name = log
  rotation : w.rotator.rotation = rule
  going : w.fallback = false
  sequence : w.rotator.sequence = past.length
  size : w.size = current.flatten.length
  place : w.place = none ∨ w.place = some current.flatten.length
  active : d.entry? log = some (.file w.file)
  content : d.files[w.file]? = some ⟨false, current.flatten⟩
  archive : Archive log rule.compress d (rule.left past)
  apart : ∀ s ∈ rule.left past, s.file ≠ w.file
  sequences : ∀ s ∈ past, s.sequence ≤ past.length

namespace LogStream

variable {rule : Rotation} {log : String} {w : LogWriter} {d : LogFolder}
  {past : List SetAside} {current : List (List UInt8)}

theorem written (h : LogStream rule log w d past current) (bytes : List UInt8) :
    LogStream rule log (w.after bytes) (d.write w.file w.place bytes) past (current ++ [bytes]) where
  name := h.name
  rotation := h.rotation
  going := h.going
  sequence := h.sequence
  size := by
    rw [List.flatten_append, List.flatten_singleton, List.length_append, ← h.size]
    rfl
  place := by
    unfold LogWriter.after
    rw [List.flatten_append, List.flatten_singleton, List.length_append]
    rcases h.place with hplace | hplace
    · exact .inl (by rw [hplace]; rfl)
    · exact .inr (by rw [hplace]; rfl)
  active := h.active
  content := by
    change (d.files.modify w.file _)[w.file]? = _
    rw [List.getElem?_modify_eq, h.content, List.flatten_append, List.flatten_singleton]
    exact congrArg (fun all => some (LogFile.mk false all)) (LogFolder.overwrite_end h.place bytes)
  archive := by
    refine { h.archive with entries := h.archive.entries, files := fun s hs => ?_ }
    unfold LogFolder.write
    rw [List.getElem?_modify_ne _ _ (h.apart s hs).symm]
    exact h.archive.files s hs
  apart := h.apart
  sequences := h.sequences

theorem later (h : LogStream rule log w d past current) {now : Instant}
    (hpast : ∀ s ∈ past, s.time ≤ now) :
    ∀ s ∈ rule.left past, s.time ≤ now ∧ s.sequence < w.rotator.sequence + 1 := fun s hs => by
  have hs := List.mem_of_mem_drop hs
  exact ⟨hpast s hs, h.sequence ▸ Nat.lt_succ_of_le (h.sequences s hs)⟩

theorem renewed (h : LogStream rule log w d past current) {refuses : FileOp → Bool} {now : Instant}
    (hyear : now.HasFourDigitYear) (hpast : ∀ s ∈ past, s.time ≤ now)
    (hcount : past.length + 1 < 10000)
    (hrotated : ∃ moved r d₁, w.rotator.rotate refuses now log d = (.ok moved, r, d₁))
    (hopened : (w.renew refuses now d).1.fallback = false) :
    ∃ file, LogStream rule log (w.renew refuses now d).1 (w.renew refuses now d).2
      (past ++ [⟨now, past.length + 1, current, file⟩]) [] := by
  obtain ⟨moved, r, d₁, hrotate⟩ := hrotated
  obtain rfl := h.rotation
  obtain ⟨rfl, hgone, file, harchive⟩ := h.archive.rotate h.active h.content hyear
    (h.sequence ▸ hcount) (h.later hpast) hrotate
  rw [Rotation.left_append, h.sequence] at harchive
  rw [LogWriter.renew_eq (h.name ▸ hrotate)] at hopened ⊢
  rw [LogWriter.reopen_eq (h.name ▸ hgone) hopened]
  exact ⟨file, {
    name := h.name
    rotation := rfl
    going := h.going
    sequence := by rw [List.length_append, h.sequence]; rfl
    size := rfl
    place := .inl rfl
    active := by
      change List.lookup log (d₁.entries ++ [(w.name, _)]) = _
      rw [h.name, List.lookup_append, List.lookup_cons_self]
      change ( d₁.entry? log).or _ = _
      rw [hgone]
      rfl
    content := List.getElem?_concat_length
    archive := h.name ▸ harchive.reopened _
    apart := fun s hs => Nat.ne_of_lt (harchive.file_lt hs)
    sequences := by
      intro s hs
      rw [List.length_append]
      rcases List.mem_append.mp hs with hs | hs
      · exact Nat.le_succ_of_le (h.sequences s hs)
      · rw [List.mem_singleton.mp hs]
        exact Nat.le_refl _ }⟩

theorem renewable (h : LogStream rule log w d past current) {refuses : FileOp → Bool}
    (hsound : ∀ op, refuses op = false) {now : Instant} (hyear : now.HasFourDigitYear)
    (hpast : ∀ s ∈ past, s.time ≤ now) (hcount : past.length + 1 < 10000)
    (hlog : LogFolder.isName log = true) (hname : log.utf8ByteSize + 27 ≤ 255) :
    (∃ moved r d₁, w.rotator.rotate refuses now log d = (.ok moved, r, d₁)) ∧
      (w.renew refuses now d).1.fallback = false := by
  obtain rfl := h.rotation
  obtain ⟨moved, r, d₁, hrotate⟩ := h.archive.rotate_isOk hsound h.active h.content hyear
    (h.sequence ▸ hcount) (h.later hpast) hname
  obtain ⟨-, hgone, -⟩ := h.archive.rotate h.active h.content hyear (h.sequence ▸ hcount)
    (h.later hpast) hrotate
  obtain ⟨id, d₂, hopen⟩ := LogFolder.openFile?_isSome hgone hlog true
  refine ⟨⟨moved, r, d₁, hrotate⟩, ?_⟩
  rw [LogWriter.renew_eq (h.name ▸ hrotate)]
  unfold LogWriter.reopen
  simp only [h.name, hopen, hsound]
  exact h.going

/-! ## Whole courses -/

theorem opened {d₀ : LogFolder} {initial : List UInt8} {keep : Bool} {id : Nat}
    (hlog : d₀.entry? log = none ∧ initial = [] ∨ d₀.file? log = some ⟨false, initial⟩)
    (halone : d₀.rotations log = []) (hopen : d₀.openFile? log keep = some (id, d)) :
    d.entry? log = some (.file id) ∧ d.setAsides log = [] ∧
      d.files[id]? = some ⟨false, if keep then initial else []⟩ := by
  have hnone := LogFolder.setAsides_eq_nil halone
  rcases hlog with ⟨hentry, rfl⟩ | hfile
  · obtain ⟨rfl, rfl⟩ := LogFolder.openFile?_of_none hentry hopen
    refine ⟨?_, ?_, ?_⟩
    · change List.lookup log (d₀.entries ++ [(log, _)]) = _
      rw [List.lookup_append, List.lookup_cons_self]
      exact congrArg (fun e => e.or (some (.file d₀.files.length))) hentry
    · rw [LogFolder.setAsides_append, LogFolder.isRotation_self, if_neg Bool.false_ne_true,
        List.append_nil]
      exact hnone
    · rw [ite_self]
      exact List.getElem?_concat_length
  · obtain ⟨id', hentry, hcontent⟩ := LogFolder.file?_eq_some hfile
    unfold LogFolder.openFile? at hopen
    rw [hentry, Option.some.injEq, Prod.mk.injEq] at hopen
    obtain ⟨rfl, rfl⟩ := hopen
    cases keep with
    | true => exact ⟨hentry, hnone, hcontent⟩
    | false =>
      refine ⟨hentry, hnone, ?_⟩
      change (d₀.files.set id' _)[id']? = _
      rw [List.getElem?_set_self (List.getElem?_eq_some_iff.mp hcontent).1]
      rfl

theorem of_new {config : LogFileConfig} {d₀ : LogFolder} {initial : List UInt8}
    (hlog : d₀.entry? log = none ∧ initial = [] ∨ d₀.file? log = some ⟨false, initial⟩)
    (halone : d₀.rotations log = []) (hnew : LogWriter.new config log d₀ = .ok (w, d)) :
    LogStream config.rotation log w d [] [config.opened initial] := by
  unfold LogWriter.new at hnew
  split at hnew
  · rename_i id d₁ hopen
    cases hnew
    obtain ⟨hentry, hnone, hcontent⟩ := opened hlog halone hopen
    exact {
      name := rfl
      rotation := rfl
      going := rfl
      sequence := rfl
      size := by rw [hcontent, List.flatten_singleton]; rfl
      place := by
        unfold LogFileConfig.opened
        cases config.append with
        | true => exact .inl rfl
        | false => exact .inr rfl
      active := hentry
      content := by rw [hcontent, List.flatten_singleton]; rfl
      archive := by
        rw [Rotation.left_nil]
        exact Archive.empty hnone
      apart := fun s hs => by
        rw [Rotation.left_nil] at hs
        exact absurd hs List.not_mem_nil
      sequences := fun _ hs => absurd hs List.not_mem_nil }
  · cases hnew

theorem fills_eq (h : LogStream rule log w d past current) (x : LogWrite) :
    w.fills x = rule.isDue (current ++ [x.bytes]).flatten.length := by
  unfold LogWriter.fills
  rw [h.rotation, h.size, List.flatten_append, List.flatten_singleton, List.length_append]

theorem past_le {x : LogWrite} {xs : List LogWrite} (hclock : ∀ y ∈ xs, x.now ≤ y.now)
    (hpast : ∀ s ∈ past, ∀ y ∈ x :: xs, s.time ≤ y.now) (n : Nat) (buffers : List (List UInt8))
    (file : Nat) : ∀ s ∈ past ++ [⟨x.now, n, buffers, file⟩], ∀ y ∈ xs, s.time ≤ y.now := by
  intro s hs y hy
  rcases List.mem_append.mp hs with hs | hs
  · exact hpast s hs y (List.mem_cons_of_mem x hy)
  · rw [List.mem_singleton.mp hs]
    exact hclock y hy

/-- What a course writes goes into the files that it fills, and into the log file. -/
theorem course {xs : List LogWrite} {w' : LogWriter} {d' : LogFolder}
    (h : LogStream rule log w d past current) (hcourse : w.Course d xs w' d')
    (hclock : xs.Pairwise fun x y => x.now ≤ y.now) (hpast : ∀ s ∈ past, ∀ x ∈ xs, s.time ≤ x.now)
    (hyears : ∀ x ∈ xs, x.now.HasFourDigitYear)
    (hcount : past.length + (rule.fill current (xs.map (·.bytes))).1.length < 10000) :
    ∃ more, LogStream rule log w' d' (past ++ more) (rule.fill current (xs.map (·.bytes))).2 ∧
      more.map (·.buffers) = (rule.fill current (xs.map (·.bytes))).1 := by
  induction hcourse generalizing past current with
  | nil => exact ⟨[], (List.append_nil past).symm ▸ h, rfl⟩
  | @written w w' d d' x xs hwritten hroom others ih =>
    rw [List.pairwise_cons] at hclock
    rw [List.forall_mem_cons] at hyears
    rw [LogWriter.write_eq h.going hwritten, hroom] at ih
    rw [h.fills_eq] at hroom
    rw [List.map_cons, Rotation.fill_of_room hroom] at hcount ⊢
    exact ih (h.written x.bytes) hclock.2
      (fun s hs y hy => hpast s hs y (List.mem_cons_of_mem x hy)) hyears.2 hcount
  | @rotated w w' d d' x xs hwritten hfull hrotated hopened others ih =>
    rw [List.pairwise_cons] at hclock
    rw [List.forall_mem_cons] at hyears
    rw [LogWriter.write_eq h.going hwritten, hfull, if_pos rfl] at ih hopened
    rw [h.fills_eq] at hfull
    rw [List.map_cons, Rotation.fill_of_full hfull] at hcount ⊢
    rw [List.length_cons] at hcount
    obtain ⟨file, hrenewed⟩ := (h.written x.bytes).renewed hyears.1
      (fun s hs => hpast s hs x List.mem_cons_self) (by omega) (h.name ▸ hrotated) hopened
    obtain ⟨more, hstream, hbuffers⟩ := ih hrenewed hclock.2 (past_le hclock.1 hpast _ _ _) hyears.2
      (by rw [List.length_append, List.length_singleton]; omega)
    rw [List.append_assoc] at hstream
    exact ⟨_, hstream, congrArg ((current ++ [x.bytes]) :: ·) hbuffers⟩

theorem exists_course {xs : List LogWrite} (h : LogStream rule log w d past current)
    (hsound : ∀ x ∈ xs, ∀ op, x.refuses op = false) (hlog : LogFolder.isName log = true)
    (hname : log.utf8ByteSize + 27 ≤ 255) (hclock : xs.Pairwise fun x y => x.now ≤ y.now)
    (hpast : ∀ s ∈ past, ∀ x ∈ xs, s.time ≤ x.now) (hyears : ∀ x ∈ xs, x.now.HasFourDigitYear)
    (hcount : past.length + (rule.fill current (xs.map (·.bytes))).1.length < 10000) :
    ∃ w' d', w.Course d xs w' d' := by
  induction xs generalizing w d past current with
  | nil => exact ⟨w, d, .nil⟩
  | cons x xs ih =>
    rw [List.pairwise_cons] at hclock
    rw [List.forall_mem_cons] at hyears hsound
    have hwrite := LogWriter.write_eq h.going (hsound.1 .write) d
    rw [List.map_cons] at hcount
    cases hfills : w.fills x with
    | false =>
      rw [hfills, if_neg Bool.false_ne_true] at hwrite
      rw [Rotation.fill_of_room (h.fills_eq x ▸ hfills)] at hcount
      obtain ⟨w', d', hcourse⟩ := ih (h.written x.bytes) hsound.2 hclock.2
        (fun s hs y hy => hpast s hs y (List.mem_cons_of_mem x hy)) hyears.2 hcount
      exact ⟨w', d', .written (hsound.1 .write) hfills (by rwa [hwrite])⟩
    | true =>
      rw [hfills, if_pos rfl] at hwrite
      rw [Rotation.fill_of_full (h.fills_eq x ▸ hfills), List.length_cons] at hcount
      have hnow : ∀ s ∈ past, s.time ≤ x.now := fun s hs => hpast s hs x List.mem_cons_self
      obtain ⟨hrotated, hopened⟩ := (h.written x.bytes).renewable hsound.1 hyears.1 hnow (by omega)
        hlog hname
      obtain ⟨file, hrenewed⟩ :=
        (h.written x.bytes).renewed hyears.1 hnow (by omega) hrotated hopened
      obtain ⟨w', d', hcourse⟩ := ih hrenewed hsound.2 hclock.2 (past_le hclock.1 hpast _ _ _)
        hyears.2 (by rw [List.length_append, List.length_singleton]; omega)
      exact ⟨w', d', .rotated (hsound.1 .write) hfills (h.name ▸ hrotated) (by rwa [hwrite])
        (by rwa [hwrite])⟩

end LogStream

/-! ## The log after a course of writes -/

theorem LogFileConfig.pos_of_validate {c : LogFileConfig} (henabled : c.enabled = true)
    (hrotation : c.rotation.enabled = true) (hvalid : c.validate = .ok ()) :
    0 < c.rotation.maxSize ∧ 0 < c.rotation.maxFiles := by
  unfold validate Rotation.validate LogError.rule at hvalid
  rw [if_pos henabled, hrotation] at hvalid
  cases hpath : c.path.isEmpty with
  | true =>
    rw [hpath] at hvalid
    cases hvalid
  | false =>
    rw [hpath] at hvalid
    refine ⟨Nat.pos_of_ne_zero fun hzero => ?_, Nat.pos_of_ne_zero fun hzero => ?_⟩
    · rw [hzero] at hvalid
      cases hvalid
    · rw [hzero] at hvalid
      by_cases hsize : c.rotation.maxSize = 0
      · rw [hsize] at hvalid
        cases hvalid
      · simp only [hsize] at hvalid
        cases hvalid

/-- After a course of writes the files set aside and the log file have, in the order of their names,
what was there and what was written, in whole buffers, but for the oldest of the files that were
filled. A file is taken away only where there are as many as are kept, and the log file has room. -/
theorem log_keeps_order {config : LogFileConfig} {log : String} {d₀ d₁ d : LogFolder}
    {w₁ w : LogWriter} {initial : List UInt8} {xs : List LogWrite}
    (hon : config.enabled = true) (henabled : config.rotation.enabled = true)
    (hvalid : config.validate = .ok ())
    (hlog : d₀.entry? log = none ∧ initial = [] ∨ d₀.file? log = some ⟨false, initial⟩)
    (halone : d₀.rotations log = []) (hnew : LogWriter.new config log d₀ = .ok (w₁, d₁))
    (hcourse : w₁.Course d₁ xs w d) (hclock : xs.Pairwise fun x y => x.now ≤ y.now)
    (hyears : ∀ x ∈ xs, x.now.HasFourDigitYear)
    (hcount : (config.rotation.fill [config.opened initial] (xs.map (·.bytes))).1.length < 10000) :
    ∃ (lost kept : List (List (List UInt8))) (current : List (List UInt8)),
      config.rotation.fill [config.opened initial] (xs.map (·.bytes)) = (lost ++ kept, current) ∧
      lost.flatten ++ kept.flatten ++ current = config.opened initial :: xs.map (·.bytes) ∧
      (d.rotations log).map d.file? =
        kept.map (fun buffers => some ⟨config.rotation.compress, buffers.flatten⟩) ∧
      d.file? log = some ⟨false, current.flatten⟩ ∧
      kept.length + 1 ≤ config.rotation.maxFiles ∧
      (lost ≠ [] → kept.length + 1 = config.rotation.maxFiles) ∧
      (xs ≠ [] → current.flatten.length < config.rotation.maxSize) := by
  obtain ⟨hsize, hfiles⟩ := LogFileConfig.pos_of_validate hon henabled hvalid
  obtain ⟨past, hstream, hbuffers⟩ := (LogStream.of_new hlog halone hnew).course hcourse hclock
    (fun _ hs => absurd hs List.not_mem_nil) hyears (by rwa [List.length_nil, Nat.zero_add])
  rw [List.nil_append] at hstream
  have hall := config.rotation.flatten_fill [config.opened initial] (xs.map (·.bytes))
  -- The files that were filled are those taken away and those left.
  have hsplit : (past.take (past.length - (config.rotation.maxFiles - 1))).map (·.buffers) ++
      (config.rotation.left past).map (·.buffers) =
        (config.rotation.fill [config.opened initial] (xs.map (·.bytes))).1 := by
    unfold Rotation.left
    rw [← List.map_append, List.take_append_drop, hbuffers]
  rw [← hsplit, List.flatten_append] at hall
  refine ⟨_, _, _, Prod.ext hsplit.symm rfl, hall, ?_, ?_, ?_, ?_, fun hne => ?_⟩
  · rw [hstream.archive.contents_eq, List.map_map]
    rfl
  · unfold LogFolder.file?
    rw [hstream.active]
    exact hstream.content
  · unfold Rotation.left
    rw [List.length_map, List.length_drop]
    omega
  · intro hlost
    have hpos : 0 < past.length - (config.rotation.maxFiles - 1) := by
      refine Nat.pos_of_ne_zero fun hzero => hlost ?_
      rw [hzero]
      rfl
    unfold Rotation.left
    rw [List.length_map, List.length_drop]
    omega
  · have hmax : config.rotation.maxSize = max config.rotation.maxSize 1 := by omega
    rw [hmax]
    exact Rotation.fill_small henabled (.inl (by simpa using hne))

theorem log_keeps_order_of_two_writes :
    let config : LogFileConfig :=
      { enabled := true, path := "app.log", rotation := ⟨true, 3, 2, true⟩ }
    let d₀ : LogFolder := ⟨[("app.log", .file 0)], [⟨false, [1, 2]⟩]⟩
    let xs : List LogWrite := [⟨.epoch, [3], fun _ => false⟩, ⟨.epoch, [4], fun _ => false⟩]
    d₀.rotations "app.log" = [] ∧ ∃ w₁ w d₁ d,
      LogWriter.new config "app.log" d₀ = .ok (w₁, d₁) ∧ w₁.Course d₁ xs w d ∧
        (d.rotations "app.log").map d.file? = [some ⟨true, [1, 2, 3]⟩] ∧
        d.file? "app.log" = some ⟨false, [4]⟩ := by
  intro config d₀ xs
  have halone : d₀.rotations "app.log" = [] := by
    rw [LogFolder.rotations_of_ascending] <;> decide
  have hnew : LogWriter.new config "app.log" d₀ =
      .ok (⟨"app.log", ⟨config.rotation, 0⟩, 0, none, 2, false⟩, d₀) := rfl
  obtain ⟨w, d, hcourse⟩ : ∃ w d, LogWriter.Course _ d₀ xs w d :=
    (LogStream.of_new (.inr rfl) halone hnew).exists_course (by simp [xs]) (by decide) (by decide)
      (by decide) (by simp) (by decide) (by decide)
  obtain ⟨lost, kept, current, hfill, -, hkept, hcurrent, -, hlost, -⟩ :=
    log_keeps_order rfl rfl rfl (.inr rfl) halone hnew hcourse (by decide) (by decide) (by decide)
  obtain ⟨hfiles, rfl⟩ : [[[1, 2], [3]]] = lost ++ kept ∧ [[4]] = current := Prod.mk.inj hfill
  have hone := congrArg List.length hfiles
  have hnone : lost = [] := by
    by_contra hsome
    have htwo : kept.length + 1 = 2 := hlost hsome
    have hpos := List.length_pos_of_ne_nil hsome
    rw [List.length_append, List.length_singleton] at hone
    omega
  rw [hnone, List.nil_append] at hfiles
  rw [← hfiles] at hkept
  exact ⟨halone, _, w, d₀, d, hnew, hcourse, hkept, hcurrent⟩

end Cadence
