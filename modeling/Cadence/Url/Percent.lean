/-!
# Percent encoding

Characters that have no place of their own in a part of a URL are written as the bytes of their
UTF-8 form, each as `%` and two hexadecimal digits. Each part has its own set of such characters.
-/

namespace Cadence.Url

/-! ## The sets -/

/-- Control characters, and all that is not ASCII. -/
def isControl (c : Char) : Bool := c.toNat < 32 || 126 < c.toNat

def inFragmentSet (c : Char) : Bool := isControl c || " \"<>`".toList.contains c

def inQuerySet (c : Char) : Bool := isControl c || " \"#<>".toList.contains c

/-- The set for queries of the web's own schemes. -/
def inSpecialQuerySet (c : Char) : Bool := inQuerySet c || c = '\''

def inPathSet (c : Char) : Bool := inFragmentSet c || "#?^\x7b\x7d".toList.contains c

def inUserSet (c : Char) : Bool := inPathSet c || "/:;=@[\\]|".toList.contains c

/-! ## Encoding and decoding -/

def hexDigit (n : Nat) : Char := (Nat.digitChar (n % 16)).toUpper

def encodeByte (b : UInt8) : List Char := ['%', hexDigit (b.toNat / 16), hexDigit b.toNat]

/-- The characters with those of a set encoded. -/
def encode (inSet : Char → Bool) (cs : List Char) : String :=
  String.ofList (cs.flatMap fun c =>
    if inSet c then (String.utf8EncodeChar c).flatMap encodeByte else [c])

def hexValue? (c : Char) : Option Nat :=
  if c.isDigit then some (c.toNat - '0'.toNat)
  else if 'a' ≤ c ∧ c ≤ 'f' then some (c.toNat - 'a'.toNat + 10)
  else if 'A' ≤ c ∧ c ≤ 'F' then some (c.toNat - 'A'.toNat + 10)
  else none

/-- The byte of an encoding at the front of the characters. -/
def byteAt? : List Char → Option UInt8
  | '%' :: a :: b :: _ => do return UInt8.ofNat (16 * (← hexValue? a) + (← hexValue? b))
  | _ => none

/-- The bytes of characters; a `%` that begins no encoding stands for itself. -/
def decode : List Char → List UInt8
  | [] => []
  | '%' :: a :: b :: rest =>
    match byteAt? ['%', a, b] with
    | some byte => byte :: decode rest
    | none => String.utf8EncodeChar '%' ++ decode (a :: b :: rest)
  | c :: rest => String.utf8EncodeChar c ++ decode rest

end Cadence.Url
