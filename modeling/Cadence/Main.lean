import Cadence.CommandLine.Run
import Cadence.Json.Layout

/-!
# The program

Gathers the words of the command line, the variables and the files that the library asks for, runs
the command and prints what it leads to. There is no network: a remote service does not answer, and
the service itself does not listen. Names of hosts and log filters are known in ASCII.
-/

namespace Cadence.Program

open CommandLine

variable [HostNames] [FilterRules]

/-! ## What lies around the program -/

/-- The names of all sections and settings of a document, with what leads to them. -/
def settingPaths (fuel : Nat) (path : List String) (v : Json) : List (List String) :=
  match fuel, v with
  | fuel + 1, .obj ms => ms.flatMap fun (n, v) =>
      (path ++ [n]) :: settingPaths fuel (path ++ [n]) v
  | _, _ => []

/-- The names of the variables that the program looks at. -/
def variableNames : List String :=
  ["CRM_APP_ENV", "CRM_CONFIG_DIR", "CRM_CONFIG_FILE", "CRM_TRIGGER_ACCESS_TOKEN",
    "CRM_TRIGGER_REFRESH_TOKEN"] ++
  (settingPaths 8 [] (({} : Settings).toJson)).map fun path =>
    "CRM_" ++ "__".intercalate (path.map fun n => String.ofList (n.toList.map Char.toUpper))

def setVariables : IO Variables := do
  let mut found := []
  for name in variableNames do
    if let some value ← IO.getEnv name then found := found ++ [(name, value)]
  return found

/-- What is found at a path: a directory can be opened, but not read. -/
def sight (path : String) : IO Sighting := do
  match ← (IO.FS.Handle.mk path .read).toBaseIO with
  | .error _ => return .missing
  | .ok handle => match ← handle.readToEnd.toBaseIO with
    | .ok text => return .file text
    | .error _ => return .directory

/-- The files that an invocation may look at. -/
def filesOf (vars : Variables) (config : Option String) : List String :=
  let fromVariables := match Loader.ofVariables vars with
    | .ok l => l.file?.toList ++
        Environment.all.flatMap fun e => { l with environment := e }.layers
    | .error _ => []
  (config.toList ++ fromVariables).flatMap fun path => [path, Loader.withEnding path]

/-- The seconds from the start of 1970: those at the start of the system and those since. -/
def unixSeconds : IO Int := do
  let numberAfter (start : String) (text : String) : Int :=
    ((text.splitOn start)[1]?.bind fun rest =>
      Text.natOf? (rest.toList.takeWhile Char.isDigit)).getD 0
  let started := numberAfter "btime " (← IO.FS.readFile "/proc/stat")
  let since := Text.natOf? ((← IO.FS.readFile "/proc/uptime").toList.takeWhile Char.isDigit)
  return started + Int.ofNat (since.getD 0)

/-- No service is within reach. -/
def noNetwork (now : Instant) : Surroundings Unit :=
  ⟨fun _ => now, fun _ _ => 0, fun _ _ => false, fun _ _ s => (none, s), none⟩

/-! ## Printing -/

def print : Output → IO Unit
  | .lines ls => ls.forM IO.println
  | .document v => IO.println v.page

def printUsage (e : UsageError) : IO UInt32 := do
  if e.isWanted then IO.println e.message else IO.eprintln ("error: " ++ e.message)
  return e.exitCode.toUInt32

def fail (message : String) : IO UInt32 := do
  IO.eprintln ("Error: " ++ message)
  return 1

/-- Runs a command line. -/
def run (words : List String) : IO UInt32 := do
  let vars ← setVariables
  -- Every path is taken for a file at first, to learn which one is named.
  let config := match Invocation.read (fun _ => .file "") vars words with
    | .ok i => i.config
    | .error _ => none
  let mut sightings := []
  for path in filesOf vars config do
    sightings := sightings ++ [(path, ← sight path)]
  let found := sightings
  let look (path : String) : Sighting := (found.lookup path).getD .missing
  match Invocation.read look vars words with
  | .error e => printUsage e
  | .ok i =>
    let now := (Instant.ofSeconds? (← unixSeconds) 0).getD .epoch
    match CommandLine.run ⟨look, vars, now, 0, noNetwork now, ()⟩ i with
    | .serving s _ => match Server.start s fun _ => ⟨now, fun _ => none⟩ with
      | .error e => fail e.message
      | .ok _ => fail s!"Failed to bind to {s.server.address}"
    | .brokenOff => return 101
    | .finished o => do
      print o.output
      match o.error? with
      | some e => fail e.message
      | none => return 0

end Cadence.Program

def main (words : List String) : IO UInt32 :=
  let _ : Cadence.HostNames := .plain
  let _ : Cadence.FilterRules := .plain
  Cadence.Program.run words
