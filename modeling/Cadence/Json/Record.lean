import Cadence.Json.Decode
import Cadence.Json.Read

/-!
# Flat records in JSON text

Reading a record of known fields from a text that need not be one. The text is looked at from its
start, and the first fault decides: it is malformed, or it is well formed so far and not the record
that is asked for. Members of other names are skipped, and skipping minds the grammar alone: neither
the range of numbers nor the partner of an escaped surrogate nor the depth.

The record may also be an array of its fields in order.
-/

namespace Cadence.Json

/-- What is wrong with a text. -/
inductive Fault
  /-- it is no JSON text -/
  | malformed
  /-- it is not what is asked for -/
  | mismatched
  deriving DecidableEq, Repr

/-! ## Skipping -/

/-- The characters after a string, from behind its opening quote on. -/
def skipString : List Char → Option (List Char)
  | [] => none
  | '"' :: rest => some rest
  | '\\' :: 'u' :: a :: b :: c :: d :: rest =>
    if (hex4? a b c d).isSome then skipString rest else none
  | '\\' :: c :: rest => if (shortEscape? c).isSome then skipString rest else none
  | c :: rest => if c.toNat < 32 then none else skipString rest

/-- The characters after a number, of whatever size. -/
def skipNumber (cs : List Char) : Option (List Char) := do
  let cs := match cs with
    | '-' :: rest => rest
    | _ => cs
  let (whole, rest) := Text.spanDigits cs
  if whole.isEmpty || (whole.head? = some '0' && 1 < whole.length) then none
  let (_, rest) ← readFraction rest
  let (_, rest) ← readExponent rest
  return rest

def skipScalar : List Char → Option (List Char)
  | 'n' :: 'u' :: 'l' :: 'l' :: rest => some rest
  | 't' :: 'r' :: 'u' :: 'e' :: rest => some rest
  | 'f' :: 'a' :: 'l' :: 's' :: 'e' :: rest => some rest
  | '"' :: rest => skipString rest
  | cs => skipNumber cs

/-- The characters after the items of an array, from one item on. -/
def skipItems (skip : List Char → Option (List Char)) : Nat → List Char → Option (List Char)
  | 0, _ => none
  | fuel + 1, cs =>
    match (skip cs).map skipGaps with
    | some (',' :: rest) => skipItems skip fuel rest
    | some (']' :: rest) => some rest
    | _ => none

/-- The characters after the members of an object, from one member on. -/
def skipMembers (skip : List Char → Option (List Char)) : Nat → List Char → Option (List Char)
  | 0, _ => none
  | fuel + 1, cs =>
    match skipGaps cs with
    | '"' :: rest =>
      match (skipString rest).map skipGaps with
      | some (':' :: rest) =>
        match (skip rest).map skipGaps with
        | some (',' :: rest) => skipMembers skip fuel rest
        | some ('\x7d' :: rest) => some rest
        | _ => none
      | _ => none
    | _ => none

/-- The characters after a value with arrays and objects at most `depth` deep. -/
def skipTo : Nat → List Char → Option (List Char)
  | 0, cs => skipScalar (skipGaps cs)
  | depth + 1, cs =>
    match skipGaps cs with
    | '[' :: rest =>
      match skipGaps rest with
      | ']' :: rest => some rest
      | rest => skipItems (skipTo depth) (rest.length + 1) rest
    | '\x7b' :: rest =>
      match skipGaps rest with
      | '\x7d' :: rest => some rest
      | rest => skipMembers (skipTo depth) (rest.length + 1) rest
    | cs => skipScalar cs

/-- The characters after a value of any depth. -/
def skipValue (cs : List Char) : Option (List Char) := skipTo cs.length cs

/-! ## Fields -/

/-- A value, or what is wrong; with the characters that are left. -/
abbrev Reading (α : Type) := Except Fault (α × List Char)

def orMalformed {α : Type} : Option α → Except Fault α
  | some a => .ok a
  | none => .error .malformed

/-- What is wrong where a value of another kind stands. Scalars are read to their end first. -/
def mismatch (cs : List Char) : Fault :=
  match cs with
  | '[' :: _ => .mismatched
  | '\x7b' :: _ => .mismatched
  | cs => if (readScalar cs).isSome then .mismatched else .malformed

/-- A text. -/
def readText (cs : List Char) : Reading Json :=
  match skipGaps cs with
  | '"' :: rest => (orMalformed (readString [] rest)).map fun (s, rest) => (.str s, rest)
  | cs => .error (mismatch cs)

/-- A text or null. -/
def readNullableText (cs : List Char) : Reading Json :=
  match skipGaps cs with
  | 'n' :: rest =>
    match rest with
    | 'u' :: 'l' :: 'l' :: rest => .ok (.null, rest)
    | _ => .error .malformed
  | cs => readText cs

/-- Any value. -/
def readAny (cs : List Char) : Reading Json := orMalformed (readValue (maxDepth - 1) cs)

/-- A field of a record: how its value is read. -/
structure FieldReader extends FieldSpec where
  read : List Char → Reading Json

def FieldReader.text (name : String) : FieldReader := ⟨.required name, readText⟩
def FieldReader.optionalText (name : String) : FieldReader := ⟨.defaulted name, readNullableText⟩
def FieldReader.any (name : String) : FieldReader := ⟨.required name, readAny⟩
def FieldReader.optionalAny (name : String) : FieldReader := ⟨.defaulted name, readAny⟩

/-! ## Records -/

/-- All fields that must be there are there. -/
def complete (fields : List FieldReader) (members : List (String × Json)) :
    Except Fault (List (String × Json)) :=
  if fields.all fun f => f.mayLack || (members.lookup f.name).isSome then .ok members
  else .error .mismatched

/-- The members of an object from one member on. -/
def recordMembers (fields : List FieldReader) :
    Nat → List (String × Json) → List Char → Except Fault (List (String × Json) × List Char)
  | 0, _, _ => .error .malformed
  | fuel + 1, done, cs =>
    match skipGaps cs with
    | '"' :: rest => do
      let (name, rest) ← orMalformed (readString [] rest)
      let field? := fields.find? (·.name == name)
      if field?.isSome && (done.lookup name).isSome then throw .mismatched
      match skipGaps rest with
      | ':' :: rest =>
        let (done, rest) ← match field? with
          | some f => (f.read rest).map fun (v, rest) => ((name, v) :: done, rest)
          | none => (orMalformed (skipValue rest)).map fun rest => (done, rest)
        match skipGaps rest with
        | ',' :: rest => recordMembers fields fuel done rest
        | '\x7d' :: rest => (complete fields done).map (·, rest)
        | _ => throw .malformed
      | _ => throw .malformed
    | _ => .error .malformed

/-- The items of an array from one item on; `first` tells that none was read yet. -/
def recordItems :
    List FieldReader → Bool → List Char → Except Fault (List (String × Json) × List Char)
  | [], _, cs =>
    match skipGaps cs with
    | ']' :: rest => .ok ([], rest)
    | _ => .error .malformed
  | f :: fields, first, cs =>
    match skipGaps cs with
    | ']' :: rest => (complete (f :: fields) []).map (·, rest)
    | c :: rest =>
      if first then next f fields (c :: rest)
      else if c = ',' then
        match skipGaps rest with
        | ']' :: _ => .error .malformed
        | rest => next f fields rest
      else .error .malformed
    | [] => .error .malformed
where
  next (f : FieldReader) (fields : List FieldReader) (cs : List Char) :
      Except Fault (List (String × Json) × List Char) := do
    let (v, rest) ← f.read cs
    let (members, rest) ← recordItems fields false rest
    return ((f.name, v) :: members, rest)

/-- The record that a whole text spells: its known members. -/
def readRecord (fields : List FieldReader) (s : String) : Except Fault (List (String × Json)) := do
  let (members, rest) ← match skipGaps s.toList with
    | '[' :: rest => recordItems fields true rest
    | '\x7b' :: rest =>
      match skipGaps rest with
      | '\x7d' :: rest => (complete fields []).map (·, rest)
      | rest => recordMembers fields (rest.length + 1) [] rest
    | cs => .error (mismatch cs)
  if (skipGaps rest).isEmpty then return members else throw .malformed

end Cadence.Json
