import Cadence.Text.Basic

/-!
# Media types

The names of the formats of bodies, such as `application/problem+json; charset=utf-8`.
-/

namespace Cadence.Http

/-- A format: its type, its subtype without the suffix, and the suffix, in lower case. -/
structure MediaType where
  type : String
  subtype : String
  suffix : Option String
  deriving DecidableEq, Repr

namespace MediaType

/-- The characters of a name. -/
def isToken (c : Char) : Bool := c.isAlphanum || "!#$%&'+-.^_`|~".toList.contains c

/-- The characters between the quotes of a value. -/
def isQuotable (c : Char) : Bool := 31 < c.toNat && c.toNat ≠ 127

/-- What follows a quoted value: nothing, or the next parameter. -/
def afterQuoted? (cs : List Char) : Option (List Char) :=
  match cs.dropWhile (· = ' ') with
  | [] => some []
  | ';' :: rest => some rest
  | _ => none

/-- The characters after the value of a parameter. A quoted value is not empty. -/
def afterValue? : List Char → Option (List Char)
  | '"' :: c :: rest =>
    match rest.dropWhile fun d => d ≠ '"' && isQuotable d with
    | '"' :: rest => if isQuotable c then afterQuoted? rest else none
    | _ => none
  | cs =>
    match cs.dropWhile isToken with
    | [] => some []
    | ';' :: rest => if cs.head? = some ';' then none else some rest
    | _ => none

/-- Parameters from the start of a name on. -/
def parametersValid : Nat → List Char → Bool
  | _, [] => true
  | 0, _ => false
  | fuel + 1, ' ' :: rest => parametersValid fuel rest
  | fuel + 1, cs =>
    match cs.dropWhile isToken with
    | '=' :: rest =>
      cs.head? ≠ some '=' && match afterValue? rest with
        | some rest => parametersValid fuel rest
        | none => false
    | _ => false

/-- The media type that a text names. -/
def read? (s : String) : Option MediaType :=
  let cs := s.toList.map Char.toLower
  match cs.dropWhile isToken with
  | '/' :: rest =>
    let type := cs.takeWhile isToken
    let name := rest.takeWhile isToken
    let parameters := match rest.dropWhile isToken with
      | [] => true
      | ';' :: rest => !name.isEmpty && parametersValid rest.length rest
      | _ => false
    if type.isEmpty || !parameters then none
    else match name with
      | [] => some ⟨String.ofList type, "", none⟩
      | c :: name => match Text.cutLast? '+' name with
        | some (before, suffix) =>
          some ⟨String.ofList type, String.ofList (c :: before), some (String.ofList suffix)⟩
        | none => some ⟨String.ofList type, String.ofList (c :: name), none⟩
  | _ => none

/-- JSON, or a format that is written in it. -/
def isJson (m : MediaType) : Bool :=
  m.type = "application" && (m.subtype = "json" || m.suffix = some "json")

end MediaType

end Cadence.Http
