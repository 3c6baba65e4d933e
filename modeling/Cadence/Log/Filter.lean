import Cadence.Text.Basic
import Cadence.Text.Digits

/-!
# Log filters

Which texts say what is to be logged. A filter is a list of directives with commas between them; a
directive is a level, or a target, a span with fields, and a level:

    info    crm_cron    crm_cron=debug    [span]=info    crm_cron[span{field}]=trace

A lone word is always fine, as it is a target if it is no level. Blanks around a directive are not
counted when the places of its field and its level are determined, but are there when these are
read; so a directive with a level and a blank before it is refused.
-/

namespace Cadence

/-- What filters are made of beyond their own grammar. -/
class FilterRules where
  /-- a character beyond ASCII is a letter or a digit -/
  isLetter : Char → Bool
  /-- what is wrong with the value that a field is to have, where it is no number and no pattern -/
  valueFault? : List Char → Option String

/-- Letters and digits of ASCII, and any values. -/
@[reducible]
def FilterRules.plain : FilterRules := ⟨fun _ => false, fun _ => none⟩

namespace LogFilter

/-- What is wrong with a filter. -/
inductive Fault
  | directive
  | field (reason : String)
  | level
  deriving DecidableEq, Repr

def Fault.message : Fault → String
  | directive => "invalid filter directive"
  | field reason => "invalid field filter: " ++ reason
  | level => "error parsing level filter: expected one of \"off\", \"error\", \"warn\", \"info\", \"debug\", \"trace\", or a number 0-5"

def levelNames : List String := ["off", "error", "warn", "info", "debug", "trace"]

/-- A level is one of six words in any case, or its number. -/
def isLevel (cs : List Char) : Bool :=
  (Text.unsigned? 5 cs).isSome || levelNames.contains (String.ofList (cs.map Char.toLower))

/-- Where the reading of a directive stands. Positions count the characters before. -/
inductive State
  | start
  | word
  | span
  | field (position : Nat)
  | fields
  | target
  | level (position : Nat)
  deriving DecidableEq, Repr

variable [FilterRules]

def isWordStart (c : Char) : Bool :=
  c.isAlphanum || c = '-' || c = ':' || c = '_' || (128 ≤ c.toNat && FilterRules.isLetter c)

/-- A field has a name, and may have a value that it is to have. -/
def checkField (cs : List Char) : Except Fault Unit :=
  if cs.isEmpty then .error .directive
  else match Text.splitOn '=' cs with
    | _ :: value :: _ => match FilterRules.valueFault? value with
      | some reason => .error (.field reason)
      | none => .ok ()
    | _ => .ok ()

/-- Goes on with the character at a position of the directive, whose whole text is given. -/
def step (text : List Char) (position : Nat) : State → Char → Except Fault State
  | .start, '[' => .ok .span
  | .start, c => if isWordStart c then .ok .word else .error .directive
  | .word, '=' => .ok (.level (position + 1))
  | .word, '[' => .ok .span
  | .word, _ => .ok .word
  | .span, ']' => .ok .target
  | .span, '\x7b' => .ok (.field (position + 1))
  | .span, _ => .ok .span
  | .field p, '\x7d' => do
    checkField ((text.drop p).take (position - p))
    return .fields
  | .field p, _ => .ok (.field p)
  | .fields, ']' => .ok .target
  | .fields, _ => .error .directive
  | .target, '=' => .ok (.level (position + 1))
  | .target, _ => .error .directive
  | .level p, _ => .ok (.level p)

def run (text : List Char) (state : State) (position : Nat) : List Char → Except Fault State
  | [] => .ok state
  | c :: cs => do run text (← step text position state c) (position + 1) cs

/-- A directive as it stands between commas. -/
def checkDirective (cs : List Char) : Except Fault Unit := do
  match ← run cs .start 0 (Text.trim cs) with
  | .word | .target => return ()
  | .level position =>
    let level := cs.drop position
    if level.isEmpty || isLevel level then return () else throw .level
  | _ => throw .directive

/-- The parts between commas that are not empty. -/
def directives (cs : List Char) : List (List Char) :=
  (Text.splitOn ',' cs).filter fun p => !p.isEmpty

/-- The filter's directives are in order. -/
def check (filter : String) : Except Fault Unit :=
  (directives filter.toList).forM checkDirective

end LogFilter

end Cadence
