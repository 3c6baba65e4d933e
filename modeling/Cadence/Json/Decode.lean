import Cadence.Json.Basic
import Cadence.Time.Stamp

/-!
# Decoding JSON values

How a value is read as a piece of the domain. A record is an object: members of other names are
ignored, a repeated member is refused, and a missing or null member is no value for an optional
field. A record may also be an array of its fields in order.
-/

namespace Cadence.Json

/-- A field of a record, and whether it may be left out of an array. -/
structure FieldSpec where
  name : String
  mayLack : Bool
  deriving DecidableEq, Repr

/-- A required field, and one with a default. -/
def FieldSpec.required (name : String) : FieldSpec := ⟨name, false⟩
def FieldSpec.defaulted (name : String) : FieldSpec := ⟨name, true⟩

/-- No name of the list stands for two members. -/
def noneRepeated (names : List String) (members : List (String × Json)) : Bool :=
  names.all fun n => (members.filter fun m => m.1 == n).length ≤ 1

/-- The fields of a record. -/
def record? (fields : List FieldSpec) : Json → Option (List (String × Json))
  | .obj members =>
    if noneRepeated (fields.map (·.name)) members then some members else none
  | .arr items =>
    if items.length ≤ fields.length && (fields.drop items.length).all (·.mayLack) then
      some ((fields.map (·.name)).zip items)
    else none
  | _ => none

/-- A field that must be there. -/
def required? {α : Type} (read : Json → Option α) (ms : List (String × Json)) (name : String) :
    Option α :=
  (ms.lookup name).bind read

/-- A field with a value for its absence; a null is not an absence. -/
def defaulted? {α : Type} (read : Json → Option α) (ms : List (String × Json)) (name : String)
    (default : α) : Option α :=
  match ms.lookup name with
  | some v => read v
  | none => some default

/-- A value or null. -/
def nullable? {α : Type} (read : Json → Option α) : Json → Option (Option α)
  | .null => some none
  | v => (read v).map some

/-- A field that may be missing or null. -/
def optional? {α : Type} (read : Json → Option α) (ms : List (String × Json)) (name : String) :
    Option (Option α) :=
  defaulted? (nullable? read) ms name none

def asBool? : Json → Option Bool
  | .bool b => some b
  | _ => none

def asStr? : Json → Option String
  | .str s => some s
  | _ => none

/-- An integer within limits; a number with a fraction or an exponent is none. -/
def asIntIn? (low high : Int) : Json → Option Int
  | .int n => if low ≤ n ∧ n ≤ high then some n else none
  | _ => none

def asI32? : Json → Option Int := asIntIn? Text.i32Min Text.i32Max
def asI64? : Json → Option Int := asIntIn? Text.i64Min Text.i64Max

/-- A natural number up to a bound. -/
def asNatTo? (bound : Nat) (v : Json) : Option Nat := (asIntIn? 0 bound v).map Int.toNat

def asU16? : Json → Option Nat := asNatTo? Text.u16Max
def asU32? : Json → Option Nat := asNatTo? Text.u32Max
def asU64? : Json → Option Nat := asNatTo? Text.u64Max

def asInstant? (v : Json) : Option Instant := (asStr? v).bind Stamp.read?

def asArray? {α : Type} (read : Json → Option α) : Json → Option (List α)
  | .arr items => items.mapM read
  | _ => none

/-- The name of a choice without content: a string, or an object with the name alone. -/
def asChoice? : Json → Option String
  | .str s => some s
  | .obj [(s, .null)] => some s
  | _ => none

def ofInstant (t : Instant) : Json := .str (Stamp.write t)

def optInstant (t : Option Instant) : Json := ofOption (t.map ofInstant)

end Cadence.Json
