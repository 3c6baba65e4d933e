import Cadence.Settings.Decode
import Cadence.Text.Basic
import Cadence.Toml.Table

/-!
# Layers

Settings come from several documents and from variables of the environment, one on top of the other.
A table adds to the table below it, and any other value takes the place of what is there. In what
comes out, a value may be read as one of another kind where that makes sense.
-/

namespace Cadence.Layers

open Toml

/-! ## Merging -/

/-- The members of a table; of anything else, none. -/
def membersOf : Option Value → List (String × Value)
  | some (.table ms) => ms
  | _ => []

mutual

/-- What is there when a value comes on top of what was. -/
def merge (below : Option Value) : Value → Value
  | .table ms => .table (mergeMembers (membersOf below) ms)
  | v => v

def mergeMembers (below : List (String × Value)) : List (String × Value) → List (String × Value)
  | [] => below
  | (name, v) :: rest => mergeMembers (put name (merge (below.lookup name) v) below) rest

end

theorem lookup_mergeMembers (below above : List (String × Value)) (name : String)
    (h : above.lookup name = none) : (mergeMembers below above).lookup name = below.lookup name := by
  induction above generalizing below with
  | nil => rw [mergeMembers]
  | cons m rest ih =>
    obtain ⟨n, v⟩ := m
    rw [mergeMembers, ih _ (by grind), lookup_put]
    grind

/-- Puts a value on top at the end of a path; what is no table on the way gives way to one. -/
def setPath (v : Value) : List String → List (String × Value) → List (String × Value)
  | [], ms => ms
  | [name], ms => put name (merge (ms.lookup name) v) ms
  | name :: path, ms => put name (.table (setPath v path (membersOf (ms.lookup name)))) ms

/-! ## Names and texts -/

def isPathChar (c : Char) : Bool := c.isAlphanum || c = '_' || c = '-'

/-- The path that a name with dots stands for. A name that is no path stands for itself, and so does
one with subscripts. -/
def pathOf (name : String) : List String :=
  let parts := Text.splitOn '.' name.toList
  if parts.all fun p => !p.isEmpty && p.all isPathChar then parts.map String.ofList else [name]

/-- Puts all members of a document on top. -/
def addDocument (below document : List (String × Value)) : List (String × Value) :=
  document.foldl (fun ms (name, v) => setPath v (pathOf name) ms) below

/-- The value that a text stands for: a truth value, an integer, a number or the text itself. -/
def valueOf (s : String) : Value :=
  match Text.lower s with
  | "true" => .bool true
  | "false" => .bool false
  | _ => match Text.signed? Text.i64Min Text.i64Max s.toList with
    | some n => .int n
    | none => match Number.Binary64.ofText? s.toList with
      | some x => .float x
      | none => .text s

/-- Two underscores stand for a dot. -/
def dotted : List Char → List Char
  | '_' :: '_' :: rest => '.' :: dotted rest
  | c :: rest => c :: dotted rest
  | [] => []

/-- The setting that a variable is for: its name in lower case behind `crm_`. -/
def settingOf? (name : String) : Option String :=
  (Text.dropPrefix? "crm_".toList (Text.lower name).toList).map fun cs =>
    String.ofList (dotted cs)

/-- Puts the values of variables on top; an empty one says nothing. -/
def addVariables (below : List (String × Value)) (vars : List (String × String)) :
    List (String × Value) :=
  addDocument below <| vars.filterMap fun (name, s) =>
    if s.isEmpty then none else (settingOf? name).map (·, valueOf s)

/-! ## Reading as another kind -/

def truthOf? (s : String) : Option Bool :=
  let word := Text.lower s
  if ["true", "on", "yes"].contains word then some true
  else if ["false", "off", "no"].contains word then some false
  else none

def bool? : Value → Option Bool
  | .bool b => some b
  | .int n => some (n ≠ 0)
  | .float x => some (!x.isZero)
  | .text "1" => some true
  | .text "0" => some false
  | .text s => truthOf? s
  | _ => none

def str? : Value → Option String
  | .text s => some s
  | .bool b => some (if b then "true" else "false")
  | .int n => some (toString n)
  | .float x => some x.positional
  | _ => none

/-- The integer nearest to a number within the limits of a word. -/
def clamped (low high : Int) (x : Number.Binary64) : Int :=
  match x with
  | .nan => 0
  | .infinite negative => if negative then low else high
  | x => max low (min high (x.round?.getD 0))

/-- An integer within limits. It is first read as a word of 64 bits, which has a sign where the
limits admit one. -/
def int? (low high : Int) (v : Value) : Option Int :=
  let (least, greatest) : Int × Int :=
    if low < 0 then (Text.i64Min, Text.i64Max) else (0, Text.u64Max)
  let n := match v with
    | .int n => some n
    | .bool b => some (if b then 1 else 0)
    | .float x => some (clamped least greatest x)
    | .text s => match truthOf? s with
      | some b => some (if b then 1 else 0)
      | none =>
        if low < 0 then Text.signed? least greatest s.toList
        else (Text.unsigned? Text.u64Max s.toList).map Int.ofNat
    | _ => none
  n.filter fun n => low ≤ n && n ≤ high

/-- The name of a choice: a text, or the only name of a table. -/
def choice? : Value → Option String
  | .text s => some s
  | .table [(name, _)] => some name
  | _ => none

/-- The fields of a section, which may also be an array of its fields in order. -/
def record? (fields : List Json.FieldSpec) : Value → Option (List (String × Value))
  | .table ms => some ms
  | .array items =>
    if (fields.drop items.length).all (·.mayLack) then some ((fields.map (·.name)).zip items)
    else none
  | _ => none

end Layers

/-- What layers come to. -/
def DocumentKind.layered : DocumentKind Toml.Value where
  record? := Layers.record?
  bool? := Layers.bool?
  str? := Layers.str?
  int? := Layers.int?
  choice? := Layers.choice?

end Cadence
