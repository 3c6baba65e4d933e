import Cadence.Files.Tree
import Cadence.Settings.Environment
import Cadence.Settings.Layers
import Cadence.Settings.Validate
import Cadence.Toml.Read

/-!
# Loading settings

Where the layers come from: either the files of a directory, for all environments, for one, and for
one machine, or a single file that has to be there. The variables of the environment come on top.
-/

namespace Cadence

/-- Which files the settings are loaded from. -/
structure Loader where
  directory : String := "config"
  /-- the single file that takes the place of the directory -/
  file? : Option String := none
  environment : Environment := .development
  deriving DecidableEq, Repr

namespace Loader

/-- The loader that variables ask for. -/
def ofVariables (vars : Variables) : Except ConfigError Loader :=
  let environment := Environment.ofVariables vars
  match vars.lookup "CRM_CONFIG_DIR", vars.lookup "CRM_CONFIG_FILE" with
  | some _, some _ => .error (.mutualExclusivity <|
      "CRM_CONFIG_DIR and CRM_CONFIG_FILE cannot both be set. Use CRM_CONFIG_DIR for layered " ++
      "configuration or CRM_CONFIG_FILE for a single configuration file.")
  | some directory, none => .ok { directory, environment }
  | none, file? => .ok { file?, environment }

/-- A file of a directory. -/
def inDirectory (directory name : String) : String :=
  if directory.isEmpty || directory.toList.getLast? = some '/' then directory ++ name
  else directory ++ "/" ++ name

/-- The files of the layers, the lowest first. -/
def layers (l : Loader) : List String :=
  ["default.toml", l.environment.name ++ ".toml", "local.toml"].map (inDirectory l.directory)

/-- A path with an ending; slashes at its end are dropped. -/
def withEnding (path : String) : String :=
  String.ofList ((path.toList.reverse.dropWhile (· = '/')).reverse) ++ ".toml"

/-- The text of a file, found under its name or under the name with an ending. -/
def textAt? (look : String → Sighting) (path : String) : Option String :=
  match look path with
  | .file text => some text
  | _ => match look (withEnding path) with
    | .file text => some text
    | _ => none

/-- Puts a document on top. -/
def addText (path text : String) (below : List (String × Toml.Value)) :
    Except ConfigError (List (String × Toml.Value)) :=
  match Toml.read? text with
  | some document => .ok (Layers.addDocument below document)
  | none => .error (.other s!"TOML parse error in {path}")

/-- The documents of a directory; files that are not there are passed over. -/
def addLayers (look : String → Sighting) :
    List String → List (String × Toml.Value) → Except ConfigError (List (String × Toml.Value))
  | [], below => .ok below
  | path :: rest, below =>
    match textAt? look path with
    | none => addLayers look rest below
    | some text => do addLayers look rest (← addText path text below)

/-- The documents from below to the top, without the variables. -/
def documents (l : Loader) (look : String → Sighting) :
    Except ConfigError (List (String × Toml.Value)) :=
  match l.file? with
  | none => addLayers look l.layers []
  | some path =>
    if look path = .missing then
      .error (.fileNotFound ("Required configuration file not found: " ++ path))
    else match textAt? look path with
      | some text => addText path text []
      | none => .error (.other s!"configuration file \"{path}\" not found")

/-- The settings of all layers, whether or not they are in order. -/
def loadUnvalidated (l : Loader) (look : String → Sighting) (vars : Variables) :
    Except ConfigError Settings := do
  let values := Layers.addVariables (← l.documents look) vars
  match Settings.read? .layered (.table values) with
  | some s => return s
  | none => throw (.parse "Failed to deserialize configuration")

def load (l : Loader) (look : String → Sighting) (vars : Variables) :
    Except ConfigError Settings := do
  let s ← l.loadUnvalidated look vars
  s.validate
  return s

end Loader

end Cadence
