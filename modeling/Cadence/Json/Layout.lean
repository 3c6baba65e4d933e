import Cadence.Json.Print

/-!
# JSON text: laid out

Text for a reader: each item and each member on a line of its own, set in by two spaces for every
array or object around it.
-/

namespace Cadence.Json

/-- The start of a line at a depth. -/
def lineStart (depth : Nat) : List Char := '\n' :: List.replicate (2 * depth) ' '

mutual

def layOut (depth : Nat) : Json → List Char
  | .arr (v :: rest) =>
    '[' :: lineStart (depth + 1) ++ layOut (depth + 1) v ++ layOutItems (depth + 1) rest ++
      lineStart depth ++ [']']
  | .obj ((n, v) :: rest) =>
    '\x7b' :: lineStart (depth + 1) ++ quoted n ++ [':', ' '] ++ layOut (depth + 1) v ++
      layOutMembers (depth + 1) rest ++ lineStart depth ++ ['\x7d']
  | v => v.write

/-- The items after the first. -/
def layOutItems (depth : Nat) : List Json → List Char
  | [] => []
  | v :: rest => ',' :: lineStart depth ++ layOut depth v ++ layOutItems depth rest

/-- The members after the first. -/
def layOutMembers (depth : Nat) : List (String × Json) → List Char
  | [] => []
  | (n, v) :: rest =>
    ',' :: lineStart depth ++ quoted n ++ [':', ' '] ++ layOut depth v ++ layOutMembers depth rest

end

/-- The laid out text of a value. -/
def page (v : Json) : String := String.ofList (v.layOut 0)

end Cadence.Json
