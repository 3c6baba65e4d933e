import Cadence.Number.Shortest

/-!
# TOML values and tables

What a document is made of once it is read, and the tables that it is read into. Members stand in
the order in which they were put in, each name once.

A document names its tables and keys one after the other. How a table came to be decides how it may
be added to: a header may stand for a table once, a table in braces is closed, and keys with dots
add only to tables that keys with dots have made.
-/

namespace Cadence.Toml

/-! ## Values -/

inductive Value
  | bool (b : Bool)
  | int (n : Int)
  | float (x : Number.Binary64)
  | text (s : String)
  | array (items : List Value)
  | table (members : List (String × Value))
  deriving Repr, Inhabited

/-- Members with one put in or replaced. -/
def put {α : Type} (name : String) (v : α) : List (String × α) → List (String × α)
  | [] => [(name, v)]
  | (n, old) :: rest => if n = name then (name, v) :: rest else (n, old) :: put name v rest

theorem lookup_put {α : Type} (name other : String) (v : α) (ms : List (String × α)) :
    (put name v ms).lookup other = if other = name then some v else ms.lookup other := by
  induction ms with
  | nil => grind [put]
  | cons m rest ih =>
    obtain ⟨n, old⟩ := m
    grind [put]

/-! ## Tables under construction -/

/-- How a table came to be. -/
inductive Origin
  /-- as a parent in a header -/
  | implied
  | header
  /-- as a parent in a key with dots -/
  | dotted
  deriving DecidableEq, Repr

/-- A part of a document under construction. -/
inductive Node
  | value (v : Value)
  | table (origin : Origin) (members : List (String × Node))
  /-- the tables of one header in double brackets -/
  | tables (items : List (List (String × Node)))
  deriving Inhabited

abbrev Members := List (String × Node)

namespace Members

/-- Adds a value under a key with dots. -/
def assign (v : Value) : List String → Members → Option Members
  | [], _ => none
  | [name], ms => if (ms.lookup name).isSome then none else some (ms ++ [(name, .value v)])
  | name :: path, ms =>
    match ms.lookup name with
    | none => (assign v path []).map fun inner => ms ++ [(name, .table .dotted inner)]
    | some (.table .dotted inner) =>
      (assign v path inner).map fun inner => put name (.table .dotted inner) ms
    | some (.table .implied inner) =>
      if path.length = 1 then none
      else (assign v path inner).map fun inner => put name (.table .implied inner) ms
    | _ => none

/-- Changes the last element. -/
def modifyLast? {α : Type} (f : α → Option α) : List α → Option (List α)
  | [] => none
  | [a] => (f a).map ([·])
  | a :: rest => (modifyLast? f rest).map (a :: ·)

/-- Changes the members of the table to which all names but the last lead; of the tables of one
header the last is meant. -/
def modify (f : String → Members → Option Members) : List String → Members → Option Members
  | [], _ => none
  | [name], ms => f name ms
  | name :: path, ms =>
    match ms.lookup name with
    | none => (modify f path []).map fun inner => ms ++ [(name, .table .implied inner)]
    | some (.table origin inner) =>
      (modify f path inner).map fun inner => put name (.table origin inner) ms
    | some (.tables items) =>
      (modifyLast? (modify f path) items).map fun items => put name (.tables items) ms
    | some (.value _) => none

/-- Names a table by a header. -/
def declare (name : String) (ms : Members) : Option Members :=
  match ms.lookup name with
  | none => some (ms ++ [(name, .table .header [])])
  | some (.table .implied inner) => some (put name (.table .header inner) ms)
  | _ => none

/-- Adds a table by a header in double brackets. -/
def declareItem (name : String) (ms : Members) : Option Members :=
  match ms.lookup name with
  | none => some (ms ++ [(name, .tables [[]])])
  | some (.tables items) => some (put name (.tables (items ++ [[]])) ms)
  | _ => none

/-- Adds a value to the table that the last header named. -/
def assignUnder (path : List String) (v : Value) (header : List String) (ms : Members) :
    Option Members :=
  if header.isEmpty then assign v path ms
  else modify (fun name ms =>
    match ms.lookup name with
    | some (.table origin inner) =>
      (assign v path inner).map fun inner => put name (.table origin inner) ms
    | some (.tables items) =>
      (modifyLast? (assign v path) items).map fun items => put name (.tables items) ms
    | _ => none) header ms

end Members

mutual

/-- The value of a part that is complete. -/
def Node.toValue : Node → Value
  | .value v => v
  | .table _ members => .table (membersToValue members)
  | .tables items => .array (tablesToValue items)

def membersToValue : Members → List (String × Value)
  | [] => []
  | (name, node) :: rest => (name, node.toValue) :: membersToValue rest

def tablesToValue : List Members → List Value
  | [] => []
  | ms :: rest => .table (membersToValue ms) :: tablesToValue rest

end

end Cadence.Toml
