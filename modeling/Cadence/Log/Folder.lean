import Cadence.Files.Tree

/-!
# Log folders

The directory of a log file: names, and the files that they lead to. A file stays what it is when
its name is changed or taken away. So what is written to an open file is found under the file's new
name, or nowhere if it has none.

The functions that end in `?` are none where the directory does not allow what is asked. What a
directory allows, the system may still refuse: `FileOp` lists the points at which it can.
-/

namespace Cadence

/-- What a file holds; of a compressed file, the bytes that it unpacks to. -/
structure LogFile where
  compressed : Bool := false
  bytes : List UInt8 := []
  deriving DecidableEq, Repr

/-- What a name leads to, a file by its number. -/
inductive LogEntry
  | file (id : Nat)
  | folder
  deriving DecidableEq, Repr

/-- What the system may refuse. -/
inductive FileOp
  | write
  | rename
  | compress
  /-- the compressed file is made, and cannot be filled -/
  | fill
  | list
  | remove (name : String)
  | reopen
  deriving DecidableEq, Repr

/-- Names and files. A file without a name is still there while it is open. -/
structure LogFolder where
  entries : List (String × LogEntry) := []
  files : List LogFile := []
  deriving DecidableEq, Repr

namespace LogFolder

def entry? (d : LogFolder) (name : String) : Option LogEntry := d.entries.lookup name

def file? (d : LogFolder) (name : String) : Option LogFile :=
  match d.entry? name with
  | some (.file id) => d.files[id]?
  | _ => none

/-- All names, in ascending order. -/
def names (d : LogFolder) : List String := (d.entries.map (·.1)).mergeSort (· ≤ ·)

/-- A name that an entry may have. -/
def isName (name : String) : Bool := !name.isEmpty && name.utf8ByteSize ≤ 255

def without (d : LogFolder) (name : String) : LogFolder :=
  { d with entries := d.entries.filter (·.1 != name) }

def setFile (d : LogFolder) (id : Nat) (f : LogFile) : LogFolder :=
  { d with files := d.files.set id f }

/-! ## Operations -/

/-- The file of a name, made if there is none, and emptied if it is not kept. -/
def openFile? (d : LogFolder) (name : String) (keep : Bool) : Option (Nat × LogFolder) :=
  match d.entry? name with
  | some (.file id) => some (id, if keep then d else d.setFile id {})
  | some .folder => none
  | none =>
    if isName name then
      some (d.files.length,
        { entries := d.entries ++ [(name, .file d.files.length)], files := d.files ++ [{}] })
    else none

/-- The directory with a text as the whole of a file. -/
def put? (d : LogFolder) (name : String) (bytes : List UInt8) : Option LogFolder :=
  (d.openFile? name false).map fun (id, d) => d.setFile id { bytes := bytes }

/-- The bytes after some are written at a place, or at the end where no place is given. A gap is
filled with zeros. -/
def overwrite (place : Option Nat) (new old : List UInt8) : List UInt8 :=
  match place with
  | none => old ++ new
  | some p =>
    if new.isEmpty then old
    else old.take p ++ List.replicate (p - old.length) 0 ++ new ++ old.drop (p + new.length)

/-- The directory with bytes written to an open file. -/
def write (d : LogFolder) (id : Nat) (place : Option Nat) (bytes : List UInt8) : LogFolder :=
  { d with files := d.files.modify id fun f => { f with bytes := overwrite place bytes f.bytes } }

/-- The directory with an entry under a new name. A file takes the place of another file. -/
def rename? (d : LogFolder) (old new : String) : Option LogFolder :=
  match d.entry? old, d.entry? new with
  | some _, some .folder => none
  | some .folder, some _ => none
  | some e, _ =>
    if isName new then some { d with entries := ((d.without old).without new).entries ++ [(new, e)] }
    else none
  | none, _ => none

/-- The directory without a file. -/
def remove? (d : LogFolder) (name : String) : Option LogFolder :=
  match d.entry? name with
  | some (.file _) => some (d.without name)
  | _ => none

/-- Puts a compressed file in the place of a file, and gives its name. Where that fails, what was
done so far stays. -/
def compress (refuses : FileOp → Bool) (d : LogFolder) (name : String) :
    Option String × LogFolder :=
  match d.file? name, refuses .compress with
  | some f, false =>
    match d.openFile? (name ++ ".gz") false with
    | some (id, d) =>
      if refuses .fill then (none, d)
      else
        let d := d.setFile id { compressed := true, bytes := f.bytes }
        if refuses (.remove name) then (none, d) else (some (name ++ ".gz"), d.without name)
    | none => (none, d)
  | _, _ => (none, d)

/-- Removes files one after the other, and tells whether all of them are gone. -/
def removeAll (refuses : FileOp → Bool) : List String → LogFolder → Bool × LogFolder
  | [], d => (true, d)
  | name :: rest, d =>
    match d.remove? name, refuses (.remove name) with
    | some d, false => removeAll refuses rest d
    | _, _ => (false, d)

/-! ## In a file tree -/

/-- The names of the directories on the way to a log file, and its own name. -/
def placeOf (path : String) : List String × String :=
  let names := (FileTree.names path).filter fun n => n != "" && n != "."
  (names.dropLast, names.getLast?.getD "")

/-- The directory at a place of a tree. -/
def ofTree? (t : FileTree) (place : List String) : Option LogFolder :=
  let rest {α : Type} (p : List String × α) : Option (List String × α) :=
    if place.isPrefixOf p.1 then some (p.1.drop place.length, p.2) else none
  let addFile (d : LogFolder) : List String × String → LogFolder
    | ([name], text) => (d.put? name text.toUTF8.toList).getD d
    | (name :: _ :: _, _) => { d.without name with entries := (d.without name).entries ++ [(name, .folder)] }
    | ([], _) => d
  let addFolder (d : LogFolder) : List String × Unit → LogFolder
    | (name :: _, _) => { d.without name with entries := (d.without name).entries ++ [(name, .folder)] }
    | ([], _) => d
  if t.isDirectory place then
    some ((t.directories.filterMap fun p => rest (p, ())).foldl addFolder
      ((t.files.filterMap rest).foldl addFile {}))
  else none

/-- The directory at a place of a tree, made if nothing is in its way. -/
def makeIn? (t : FileTree) (place : List String) : Option LogFolder :=
  if t.files.any (·.1.isPrefixOf place) then none else some ((ofTree? t place).getD {})

end LogFolder

end Cadence
