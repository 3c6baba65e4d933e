import Cadence.Number.Binary64

/-!
# JSON values

A value keeps the members of an object in the order of its text, repeated names included. `sorted`
gives the form in which repeated names are resolved (the last one counts) and the names ascend.
-/

namespace Cadence

/-- A JSON value; an integer is kept apart from a number with a fraction or an exponent. -/
inductive Json
  | null
  | bool (b : Bool)
  | int (n : Int)
  | float (x : Number.Binary64)
  | str (s : String)
  | arr (items : List Json)
  | obj (members : List (String × Json))
  deriving Repr, Inhabited

namespace Json

/-- Members in ascending order of their names, with one member put in or replaced. -/
def insertMember (name : String) (value : Json) : List (String × Json) → List (String × Json)
  | [] => [(name, value)]
  | (n, v) :: rest =>
    if name = n then (name, value) :: rest
    else if name < n then (name, value) :: (n, v) :: rest
    else (n, v) :: insertMember name value rest

theorem lookup_insertMember (name key : String) (value : Json) (ms : List (String × Json)) :
    (insertMember name value ms).lookup key = if key = name then some value else ms.lookup key := by
  induction ms with
  | nil => grind [insertMember]
  | cons m rest ih =>
    obtain ⟨n, v⟩ := m
    grind [insertMember]

mutual

/-- The value with the members of every object sorted by name; of a repeated name the last counts.
-/
def sorted : Json → Json
  | .arr items => .arr (sortedItems items)
  | .obj members => .obj (sortedMembers members [])
  | v => v

def sortedItems : List Json → List Json
  | [] => []
  | v :: rest => sorted v :: sortedItems rest

def sortedMembers : List (String × Json) → List (String × Json) → List (String × Json)
  | [], done => done
  | (n, v) :: rest, done => sortedMembers rest (insertMember n (sorted v) done)

end

mutual

/-- Equality as texts have it: two floats are equal when they are the same data. -/
def beq : Json → Json → Bool
  | .null, .null => true
  | .bool a, .bool b => a == b
  | .int a, .int b => a == b
  | .float a, .float b => a == b
  | .str a, .str b => a == b
  | .arr a, .arr b => beqItems a b
  | .obj a, .obj b => beqMembers a b
  | _, _ => false

def beqItems : List Json → List Json → Bool
  | [], [] => true
  | a :: as, b :: bs => beq a b && beqItems as bs
  | _, _ => false

def beqMembers : List (String × Json) → List (String × Json) → Bool
  | [], [] => true
  | (n, a) :: as, (k, b) :: bs => n == k && beq a b && beqMembers as bs
  | _, _ => false

end

instance : BEq Json := ⟨beq⟩

/-- The member of a name of an object; `null` for a missing one and for what is no object. -/
def get (v : Json) (name : String) : Json :=
  match v with
  | .obj members => (members.lookup name).getD .null
  | _ => .null

/-- Members without those that have no value. -/
def present (members : List (String × Option Json)) : List (String × Json) :=
  members.filterMap fun (n, v) => v.map (n, ·)

def ofOption (v : Option Json) : Json := v.getD .null

def ofNat (n : Nat) : Json := .int n

def ofStrings (ss : List String) : Json := .arr (ss.map .str)

def optStr (s : Option String) : Json := ofOption (s.map .str)

end Json

end Cadence
