import Cadence.Text.Basic

/-!
# File trees

Text files in directories, and what a path leads to from the directory in which one works. What is
outside of that directory is not there.
-/

namespace Cadence

/-- What a path leads to. -/
inductive Sighting
  | missing
  | directory
  | file (text : String)
  deriving DecidableEq, Repr

/-- Files and directories by the names that lead to them. -/
structure FileTree where
  files : List (List String × String)
  directories : List (List String)
  deriving Repr

namespace FileTree

/-- The names of a path. -/
def names (path : String) : List String :=
  (Text.splitOn '/' path.toList).map String.ofList

/-- The tree of paths and texts; a path with a slash at its end is a directory. -/
def ofPaths (paths : List (String × String)) : FileTree :=
  let clean (path : String) := (names path).filter (!·.isEmpty)
  let isDirectory (path : String) : Bool := path.toList.getLast? = some '/'
  { files := (paths.filter (!isDirectory ·.1)).map fun (p, text) => (clean p, text)
    directories := (paths.filter (isDirectory ·.1)).map fun (p, _) => clean p }

/-- Some file or directory is in it, or it is named. -/
def isDirectory (t : FileTree) (place : List String) : Bool :=
  place.isEmpty || t.directories.any (place.isPrefixOf ·) ||
    t.files.any fun (p, _) => place.isPrefixOf p && place.length < p.length

/-- Follows names from a directory on. -/
def follow (t : FileTree) (place : List String) : List String → Sighting
  | [] => .directory
  | "" :: rest | "." :: rest => follow t place rest
  | ".." :: rest => if place.isEmpty then .missing else follow t place.dropLast rest
  | name :: rest =>
    let place := place ++ [name]
    if t.isDirectory place then follow t place rest
    else match rest, t.files.lookup place with
      | [], some text => .file text
      | _, _ => .missing

def look (t : FileTree) (path : String) : Sighting :=
  if path.isEmpty || path.toList.head? = some '/' then .missing else t.follow [] (names path)

end FileTree

end Cadence
