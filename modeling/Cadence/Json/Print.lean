import Cadence.Json.Basic
import Cadence.Number.Shortest

/-!
# JSON text: writing

Compact text, without blanks. In strings the quote, the backslash and the control characters are
escaped, and nothing else. An object's members are written in their order.
-/

namespace Cadence.Json

/-- The low hexadecimal digit of a number. -/
def hexDigit (n : Nat) : Char := Nat.digitChar (n % 16)

/-- A character inside a string. -/
def escapeChar (c : Char) : List Char :=
  if c = '"' then ['\\', '"']
  else if c = '\\' then ['\\', '\\']
  else if c = '\n' then ['\\', 'n']
  else if c = '\r' then ['\\', 'r']
  else if c = '\t' then ['\\', 't']
  else if c = '\x08' then ['\\', 'b']
  else if c = '\x0c' then ['\\', 'f']
  else if c.toNat < 32 then ['\\', 'u', '0', '0', hexDigit (c.toNat / 16), hexDigit c.toNat]
  else [c]

def quoted (s : String) : List Char := '"' :: s.toList.flatMap escapeChar ++ ['"']

def intText (n : Int) : List Char :=
  if n < 0 then '-' :: Nat.toDigits 10 n.natAbs else Nat.toDigits 10 n.natAbs

mutual

/-- The characters of a value. -/
def write : Json → List Char
  | .null => "null".toList
  | .bool true => "true".toList
  | .bool false => "false".toList
  | .int n => intText n
  | .float x => x.jsonText.toList
  | .str s => quoted s
  | .arr [] => ['[', ']']
  | .arr (v :: rest) => '[' :: write v ++ writeItems rest
  | .obj [] => ['\x7b', '\x7d']
  | .obj ((n, v) :: rest) => '\x7b' :: quoted n ++ ':' :: write v ++ writeMembers rest

/-- The items after the first, and the end of the array. -/
def writeItems : List Json → List Char
  | [] => [']']
  | v :: rest => ',' :: write v ++ writeItems rest

/-- The members after the first, and the end of the object. -/
def writeMembers : List (String × Json) → List Char
  | [] => ['\x7d']
  | (n, v) :: rest => ',' :: quoted n ++ ':' :: write v ++ writeMembers rest

end

/-- The compact text of a value. -/
def text (v : Json) : String := String.ofList v.write

end Cadence.Json
