import Cadence.Log.Rotation

/-!
# The log writer

Writes to the log file, which is rotated when it is full. A writer that cannot write any more turns
to the error stream for good, so that its user sees no failure. A writer whose rotation fails goes
on with the file that it has open, whatever that file's name is by then.
-/

namespace Cadence

structure LogWriter where
  name : String
  rotator : Rotator
  /-- the open file -/
  file : Nat
  /-- where the next bytes go: to the end of the file, where it is none -/
  place : Option Nat
  /-- the bytes in the file since the last rotation -/
  size : Nat
  /-- turned to the error stream -/
  fallback : Bool := false
  deriving DecidableEq, Repr

namespace LogWriter

/-- A writer of the log file of a name. -/
def new (config : LogFileConfig) (name : String) (d : LogFolder) :
    Except LogError (LogWriter × LogFolder) :=
  match d.openFile? name config.append with
  | some (id, d) =>
    let size := ((d.files[id]?.getD {}).bytes).length
    .ok ({
      name := name
      rotator := { rotation := config.rotation }
      file := id
      place := if config.append then none else some 0
      size := size }, d)
  | none => .error .io

/-- Opens the log file again after a rotation. -/
def reopen (w : LogWriter) (refuses : FileOp → Bool) (d : LogFolder) : LogWriter × LogFolder :=
  match d.openFile? w.name true, refuses .reopen with
  | some (id, d), false => ({ w with file := id, place := none }, d)
  | _, _ => ({ w with fallback := true }, d)

/-- Rotates the file and goes on with a new one, or with the old one where that fails. Either way
the next rotation waits for as many bytes as a file takes. -/
def renew (w : LogWriter) (refuses : FileOp → Bool) (now : Instant) (d : LogFolder) :
    LogWriter × LogFolder :=
  match w.rotator.rotate refuses now w.name d with
  | (.ok _, r, d) => { w with size := 0, rotator := r }.reopen refuses d
  | (.error _, r, d) => ({ w with size := 0, rotator := r }, d)

/-- Writes bytes, and rotates the file if it is full then. -/
def write (w : LogWriter) (refuses : FileOp → Bool) (now : Instant) (bytes : List UInt8)
    (d : LogFolder) : LogWriter × LogFolder :=
  if w.fallback then (w, d)
  else if refuses .write then ({ w with fallback := true }, d)
  else
    let d := d.write w.file w.place bytes
    let w := { w with place := w.place.map (· + bytes.length), size := w.size + bytes.length }
    if w.rotator.rotation.isDue w.size then w.renew refuses now d else (w, d)

end LogWriter

/-! ## Setting up -/

namespace LoggerConfig

/-- The writer of a configuration and its directory, opened in a directory tree; none without a log
file. -/
def openFile (c : LoggerConfig) (t : FileTree) : Except LogError (Option (LogWriter × LogFolder)) :=
  if c.file.enabled then
    let (place, name) := LogFolder.placeOf c.file.path
    match LogFolder.makeIn? t place with
    | some d => (LogWriter.new c.file name d).map some
    | none => .error .io
  else .ok none

/-- Sets the logger up, the log file first. That there is a logger already is found out last. -/
def install [FilterRules] (c : LoggerConfig) (installed : Bool) (t : FileTree) :
    Except LogError (Option (LogWriter × LogFolder)) := do
  c.validate
  let log ← c.openFile t
  if installed then .error .install else .ok log

end LoggerConfig

end Cadence
