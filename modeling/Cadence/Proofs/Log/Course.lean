import Cadence.Log.Writer
import Cadence.Proofs.Log.Folder

/-!
# Courses of writes

The writes to a log, one after the other, while none of them fails. The buffers that are written
fill one file after the other, whatever the directory does with the files that are full.
-/

namespace Cadence

/-! ## What buffers fill -/

namespace Rotation

variable {r : Rotation} {current rest : List (List UInt8)} {bytes : List UInt8}

/-- The files that buffers fill after those in the current file, and the buffers in the last file,
which is not full. -/
def fill (r : Rotation) (current : List (List UInt8)) :
    List (List UInt8) → List (List (List UInt8)) × List (List UInt8)
  | [] => ([], current)
  | bytes :: rest =>
    if r.isDue (current ++ [bytes]).flatten.length then
      ((current ++ [bytes]) :: (r.fill [] rest).1, (r.fill [] rest).2)
    else r.fill (current ++ [bytes]) rest

theorem fill_of_full (h : r.isDue (current ++ [bytes]).flatten.length = true) :
    r.fill current (bytes :: rest) =
      ((current ++ [bytes]) :: (r.fill [] rest).1, (r.fill [] rest).2) :=
  if_pos h

theorem fill_of_room (h : r.isDue (current ++ [bytes]).flatten.length = false) :
    r.fill current (bytes :: rest) = r.fill (current ++ [bytes]) rest :=
  if_neg (by rw [h]; decide)

/-- No buffer is lost, and none is in two files. -/
theorem flatten_fill (r : Rotation) (current buffers : List (List UInt8)) :
    (r.fill current buffers).1.flatten ++ (r.fill current buffers).2 = current ++ buffers := by
  induction buffers generalizing current with
  | nil => exact (List.append_nil current).symm
  | cons bytes rest ih =>
    cases hdue : r.isDue (current ++ [bytes]).flatten.length with
    | true => rw [fill_of_full hdue, List.flatten_cons, List.append_assoc, ih]; simp
    | false => rw [fill_of_room hdue, ih]; simp

theorem small_of_not_due (henabled : r.enabled = true) {size : Nat} (h : r.isDue size = false) :
    size < max r.maxSize 1 := by
  unfold isDue at h
  rw [henabled, Bool.true_and, decide_eq_false_iff_not] at h
  omega

theorem fill_small (henabled : r.enabled = true) {buffers : List (List UInt8)}
    (h : buffers ≠ [] ∨ current.flatten.length < max r.maxSize 1) :
    (r.fill current buffers).2.flatten.length < max r.maxSize 1 := by
  induction buffers generalizing current with
  | nil => exact h.resolve_left fun hne => hne rfl
  | cons bytes rest ih =>
    cases hdue : r.isDue (current ++ [bytes]).flatten.length with
    | true =>
      rw [fill_of_full hdue]
      exact ih (.inr (Nat.lt_of_lt_of_le Nat.one_pos (Nat.le_max_right _ _)))
    | false =>
      rw [fill_of_room hdue]
      exact ih (.inr (small_of_not_due henabled hdue))

end Rotation

/-! ## Writing -/

/-- A buffer that is written at some time, and what the system refuses then. -/
structure LogWrite where
  now : Instant
  bytes : List UInt8
  refuses : FileOp → Bool

namespace LogWriter

/-- With the buffer the file is full. -/
def fills (w : LogWriter) (x : LogWrite) : Bool :=
  w.rotator.rotation.isDue (w.size + x.bytes.length)

/-- The writer of a file to which bytes were written. -/
def after (w : LogWriter) (bytes : List UInt8) : LogWriter :=
  { w with place := w.place.map (· + bytes.length), size := w.size + bytes.length }

/-- A course of writes none of which fails. -/
inductive Course : LogWriter → LogFolder → List LogWrite → LogWriter → LogFolder → Prop
  | nil {w : LogWriter} {d : LogFolder} : Course w d [] w d
  | written {w w' : LogWriter} {d d' : LogFolder} {x : LogWrite} {xs : List LogWrite}
      (hwritten : x.refuses .write = false) (hroom : w.fills x = false)
      (others : Course (w.write x.refuses x.now x.bytes d).1 (w.write x.refuses x.now x.bytes d).2
        xs w' d') : Course w d (x :: xs) w' d'
  | rotated {w w' : LogWriter} {d d' : LogFolder} {x : LogWrite} {xs : List LogWrite}
      (hwritten : x.refuses .write = false) (hfull : w.fills x = true)
      (hrotated : ∃ moved r d₁, w.rotator.rotate x.refuses x.now w.name
        (d.write w.file w.place x.bytes) = (.ok moved, r, d₁))
      (hopened : (w.write x.refuses x.now x.bytes d).1.fallback = false)
      (others : Course (w.write x.refuses x.now x.bytes d).1 (w.write x.refuses x.now x.bytes d).2
        xs w' d') : Course w d (x :: xs) w' d'

theorem write_eq {w : LogWriter} (hgoing : w.fallback = false) {x : LogWrite}
    (hwritten : x.refuses .write = false) (d : LogFolder) :
    w.write x.refuses x.now x.bytes d =
      if w.fills x then (w.after x.bytes).renew x.refuses x.now (d.write w.file w.place x.bytes)
      else (w.after x.bytes, d.write w.file w.place x.bytes) := by
  unfold write
  rw [if_neg (by rw [hgoing]; decide), if_neg (by rw [hwritten]; decide)]
  rfl

theorem renew_eq {w : LogWriter} {d d' : LogFolder} {refuses : FileOp → Bool} {now : Instant}
    {moved : Option String} {r : Rotator}
    (h : w.rotator.rotate refuses now w.name d = (.ok moved, r, d')) :
    w.renew refuses now d = { w with size := 0, rotator := r }.reopen refuses d' := by
  unfold renew
  rw [h]

theorem reopen_eq {w : LogWriter} {d : LogFolder} {refuses : FileOp → Bool}
    (hnone : d.entry? w.name = none) (hopened : (w.reopen refuses d).1.fallback = false) :
    w.reopen refuses d = ({ w with file := d.files.length, place := none },
      ⟨d.entries ++ [(w.name, .file d.files.length)], d.files ++ [LogFile.mk false []]⟩) := by
  unfold reopen at hopened ⊢
  split at hopened
  · rename_i id d₁ hopen _
    obtain ⟨rfl, rfl⟩ := LogFolder.openFile?_of_none hnone hopen
    rfl
  · cases hopened

end LogWriter

end Cadence
