import Cadence.Log.Config
import Cadence.Log.Folder
import Cadence.Time.Stamp

/-!
# Rotation of the log file

A full log file is given a name of its own that tells when it was full, and may be compressed. Of
the files set aside the oldest are removed, as their names order them, until there are as many files
as are kept, the active one included.

What stands in this directory under a name that begins as those of the files set aside is taken for
one of them.
-/

namespace Cadence

namespace LogFolder

/-- A file name without its extension, and the extension: what follows the last point, unless the
name begins with that point. -/
def nameParts (name : String) : String × Option String :=
  match Text.cutLast? '.' name.toList with
  | some (c :: stem, extension) => (String.ofList (c :: stem), some (String.ofList extension))
  | _ => (name, none)

/-- The name under which a log file is set aside. -/
def rotatedName (name : String) (now : Instant) (sequence : Nat) : String :=
  let (stem, extension?) := nameParts name
  let rotated := stem ++ "." ++ Stamp.writeCompact now ++ "_" ++ Text.padded 4 (sequence % 10000)
  match extension? with
  | some extension => rotated ++ "." ++ extension
  | none => rotated

/-- The names that are taken for those of set aside files of a log, the oldest first. -/
def rotations (d : LogFolder) (name : String) : List String :=
  let start := (nameParts name).1 ++ "."
  d.names.filter fun n => n != name && start.toList.isPrefixOf n.toList

end LogFolder

/-- Whether a file of a size is full. -/
def Rotation.isDue (r : Rotation) (size : Nat) : Bool := r.enabled && r.maxSize ≤ size

/-- The rule of rotation, and the number of files set aside so far. -/
structure Rotator where
  rotation : Rotation
  sequence : Nat := 0
  deriving DecidableEq, Repr

namespace Rotator

/-- Gives the log file another name, and compresses it if that is asked for. The name is that of
the file where it comes to rest; there is none where there was no log file. -/
def setAside (r : Rotator) (refuses : FileOp → Bool) (now : Instant) (name : String)
    (d : LogFolder) : Except LogError (Option String) × Rotator × LogFolder :=
  match d.entry? name with
  | none => (.ok none, r, d)
  | some _ =>
    let r := { r with sequence := (r.sequence + 1) % (Text.u32Max + 1) }
    let target := LogFolder.rotatedName name now r.sequence
    match d.rename? name target, refuses .rename with
    | some d, false =>
      if r.rotation.compress then
        match d.compress refuses target with
        | (some packed, d) => (.ok (some packed), r, d)
        | (none, d) => (.error .io, r, d)
      else (.ok (some target), r, d)
    | _, _ => (.error .io, r, d)

/-- Removes the oldest of the files set aside, and tells whether that worked. -/
def prune (r : Rotator) (refuses : FileOp → Bool) (name : String) (d : LogFolder) :
    Bool × LogFolder :=
  let old := d.rotations name
  if refuses .list then (false, d)
  else d.removeAll refuses (old.take (old.length - (r.rotation.maxFiles - 1)))

/-- Sets the log file aside and removes the oldest ones. -/
def rotate (r : Rotator) (refuses : FileOp → Bool) (now : Instant) (name : String)
    (d : LogFolder) : Except LogError (Option String) × Rotator × LogFolder :=
  match r.setAside refuses now name d with
  | (.ok rotated, r, d) =>
    match r.prune refuses name d with
    | (true, d) => (.ok rotated, r, d)
    | (false, d) => (.error .io, r, d)
  | failed => failed

end Rotator

end Cadence
