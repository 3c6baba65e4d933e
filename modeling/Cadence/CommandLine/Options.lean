import Cadence.CommandLine.Value

/-!
# Options

How the words of a command line are read. An option is a word with two hyphens and a name, or a
letter in a word with one hyphen. Its value is attached to it, or is the next word; a word with a
hyphen in front is never taken for a value. No option may be given twice.

The value of the word after an option is looked at when the next option comes or the line ends, so
an unknown option is found out before a wrong value in front of it.
-/

namespace Cadence.CommandLine

/-- Why a command line is not followed. -/
inductive UsageError
  /-- a text is asked for, and nothing is wrong -/
  | help
  | version
  | unknownArgument (word : String)
  | unknownCommand (word : String)
  | conflict (option other : String)
  | noValue (option : String)
  | badValue (option : String) (fault : ValueFault)
  | surplusValue (option : String)
  | missing (options : List String)
  deriving DecidableEq, Repr

namespace UsageError

/-- A wanted text goes to the output and is a success. -/
def isWanted : UsageError → Bool
  | help | version => true
  | _ => false

def exitCode (e : UsageError) : Nat := if e.isWanted then 0 else 2

def message : UsageError → String
  | help => "Cron scheduling, backoff and permission service for the CRM"
  | version => "crm-cron"
  | unknownArgument word => s!"unexpected argument '{word}' found"
  | unknownCommand word => s!"unrecognized subcommand '{word}'"
  | conflict option other =>
    if option = other then s!"the argument '--{option}' cannot be used multiple times"
    else s!"the argument '--{option}' cannot be used with '--{other}'"
  | noValue option => s!"a value is required for '--{option}' but none was supplied"
  | badValue option fault => s!"invalid value for '--{option}': {fault.message}"
  | surplusValue option => s!"unexpected value for '--{option}' found; no more were expected"
  | missing options =>
    "the following required arguments were not provided: " ++
      ", ".intercalate (options.map ("--" ++ ·))

end UsageError

/-! ## Rules -/

/-- What an option does to the command that is being read. -/
inductive OptionKind (α : Type)
  | help
  | version
  | flag (set : α → α)
  | value (set : String → Except ValueFault (α → α))

structure OptionRule (α : Type) where
  name : String
  letter? : Option Char := none
  kind : OptionKind α
  /-- a variable of the environment that stands in for the option -/
  standIn? : Option String := none
  required : Bool := false
  conflicts : List String := []

namespace OptionRule

/-- The option of every command that asks for its description. -/
def help {α : Type} : OptionRule α := { name := "help", letter? := some 'h', kind := .help }

/-- An option with a value, as a function that reads it and one that puts it into the command. -/
def ofValue {α β : Type} (name : String) (read : String → Except ValueFault β)
    (set : β → α → α) : OptionRule α :=
  { name := name, kind := .value fun s => (read s).map set }

end OptionRule

/-! ## Words -/

inductive Word
  /-- two hyphens: no options after it -/
  | stop
  | long (name : String) (value : Option String)
  | short (letters : List Char)
  | plain
  deriving DecidableEq, Repr

def Word.ofString (s : String) : Word :=
  match s.toList with
  | ['-', '-'] => .stop
  | '-' :: '-' :: rest =>
    let (name, value) := Text.cut '=' rest
    .long (String.ofList name) (value.map String.ofList)
  | '-' :: c :: rest => .short (c :: rest)
  | _ => .plain

/-- The value attached to a letter, with or without an equals sign. -/
def attached : List Char → Option String
  | [] => none
  | '=' :: value => some (String.ofList value)
  | value => some (String.ofList value)

/-! ## Reading -/

/-- An option that has been named, and its value once it has come. -/
structure Pending (α : Type) where
  option : String
  set : String → Except ValueFault (α → α)
  value : Option String

/-- A command as far as it has been read, with the options given so far. -/
structure Reading (α : Type) where
  result : α
  given : List String := []
  pending : Option (Pending α) := none

/-- What is left when no more options can be read. -/
inductive Remainder
  | nothing
  | word (w : String) (rest : List String)
  /-- a word behind the two hyphens -/
  | behindStop (w : String)
  deriving DecidableEq, Repr

namespace Reading

variable {α : Type}

/-- Takes an option for good. -/
def take (r : Reading α) (option : String) (set : String → Except ValueFault (α → α))
    (value : String) : Except UsageError (Reading α) :=
  if r.given.contains option then .error (.conflict option option)
  else match set value with
    | .ok f => .ok { r with result := f r.result, given := r.given ++ [option] }
    | .error fault => .error (.badValue option fault)

/-- Takes the option that is pending. -/
def settle (r : Reading α) : Except UsageError (Reading α) :=
  match r.pending with
  | none => .ok r
  | some { option, set, value := some v } => { r with pending := none }.take option set v
  | some { option, .. } => .error (.noValue option)

/-- Comes upon an option, with the value attached to it. -/
def meet (r : Reading α) (o : OptionRule α) (value : Option String) :
    Except UsageError (Reading α) :=
  match o.kind, value with
  | .value set, some v => do (← r.settle).take o.name set v
  | .value set, none => do return { ← r.settle with pending := some ⟨o.name, set, none⟩ }
  | _, some _ => .error (.surplusValue o.name)
  | .flag set, none => do (← r.settle).take o.name (fun _ => .ok set) ""
  | .help, none => do
    let _ ← r.settle
    throw .help
  | .version, none => do
    let _ ← r.settle
    throw .version

def meetLong (rules : List (OptionRule α)) (r : Reading α) (name : String)
    (value : Option String) : Except UsageError (Reading α) :=
  match rules.find? (·.name = name) with
  | some o => r.meet o value
  | none => .error (.unknownArgument ("--" ++ name))

/-- Comes upon letters, each an option; all that is behind an option with a value is its value. -/
def meetShort (rules : List (OptionRule α)) :
    Reading α → List Char → Except UsageError (Reading α)
  | r, [] => .ok r
  | r, c :: rest =>
    match rules.find? (·.letter? = some c) with
    | none => .error (.unknownArgument (String.ofList ['-', c]))
    | some o => match o.kind with
      | .value _ => r.meet o (attached rest)
      | _ => do meetShort rules (← r.meet o none) rest

/-- Reads options and their values up to a word that is neither. -/
def scan (rules : List (OptionRule α)) :
    Reading α → List String → Except UsageError (Reading α × Remainder)
  | r, [] => .ok (r, .nothing)
  | r, w :: rest =>
    match Word.ofString w with
    | .stop => .ok (r, match rest with
      | [] => .nothing
      | v :: _ => .behindStop v)
    | .long name value => do scan rules (← r.meetLong rules name value) rest
    | .short letters => do scan rules (← r.meetShort rules letters) rest
    | .plain => match r.pending with
      | some { option, set, value := none } =>
        scan rules { r with pending := some ⟨option, set, some w⟩ } rest
      | _ => .ok (r, .word w rest)

/-- Takes an option from its variable, if it is not given. -/
def takeVariable (vars : Variables) (r : Reading α) (o : OptionRule α) :
    Except UsageError (Reading α) :=
  match o.kind, o.standIn?.bind fun name => vars.lookup name with
  | .value set, some v => if r.given.contains o.name then .ok r else r.take o.name set v
  | _, _ => .ok r

/-- The first option that is given with one it does not go with. -/
def conflict? (rules : List (OptionRule α)) (r : Reading α) : Option (String × String) :=
  (rules.filter (r.given.contains ·.name)).findSome? fun o =>
    (o.conflicts.find? r.given.contains).map (o.name, ·)

/-- The command, when all words have been read. -/
def finish (rules : List (OptionRule α)) (vars : Variables) (r : Reading α) :
    Except UsageError α := do
  let r ← rules.foldlM (takeVariable vars) (← r.settle)
  if let some (a, b) := r.conflict? rules then throw (.conflict a b)
  let missing := rules.filter fun o => o.required && !r.given.contains o.name
  if !missing.isEmpty then throw (.missing (missing.map (·.name)))
  return r.result

end Reading

end Cadence.CommandLine
