import Cadence.Text.Basic
import Cadence.Text.Digits
import Cadence.Url.Percent

/-!
# Addresses

The written forms of network addresses. The plain forms are those that are read everywhere; a URL
has a looser form of four-part addresses as well, with fewer parts and other bases.
-/

namespace Cadence.Url

/-! ## Plain forms -/

/-- A number from 0 to 255 without a needless zero in front. -/
def octet? (cs : List Char) : Option Nat :=
  match cs with
  | '0' :: _ :: _ => none
  | _ => if cs.length ≤ 3 then (Text.natOf? cs).filter (· ≤ 255) else none

/-- The four numbers of an address such as `127.0.0.1`. -/
def octets? (cs : List Char) : Option (List Nat) :=
  let parts := Text.splitOn '.' cs
  if parts.length = 4 then parts.mapM octet? else none

/-- A number of one to four hexadecimal digits. -/
def piece? (cs : List Char) : Option Nat :=
  if cs.isEmpty || 4 < cs.length then none
  else cs.foldl (fun n c => do return 16 * (← n) + (← hexValue? c)) (some 0)

/-- The pieces between single colons; where `last` holds, the last part may have four numbers. -/
def piecesOf? (last : Bool) : List (List Char) → Option (List Nat)
  | [] => some []
  | [p] =>
    match piece? p, last with
    | some n, _ => some [n]
    | none, true => (octets? p).bind fun
      | [a, b, c, d] => some [256 * a + b, 256 * c + d]
      | _ => none
    | none, false => none
  | p :: ps => do return (← piece? p) :: (← piecesOf? last ps)

/-- The pieces of one side of the double colon. -/
def side? (last : Bool) (cs : List Char) : Option (List Nat) :=
  if cs.isEmpty then some [] else piecesOf? last (Text.splitOn ':' cs)

/-- The characters before and after the first double colon. -/
def cutDouble? : List Char → Option (List Char × List Char)
  | ':' :: ':' :: rest => some ([], rest)
  | c :: rest => (cutDouble? rest).map fun (a, b) => (c :: a, b)
  | [] => none

/-- The eight pieces of an address such as `2001:db8::1`. A double colon stands for one piece or
more. -/
def pieces? (cs : List Char) : Option (List Nat) :=
  match cutDouble? cs with
  | some (before, after) => do
    let front ← side? false before
    let back ← side? true after
    if front.length + back.length ≤ 7 then
      some (front ++ List.replicate (8 - front.length - back.length) 0 ++ back)
    else none
  | none => (side? true cs).filter (·.length = 8)

/-- The text is an address in plain form. -/
def isAddress (cs : List Char) : Bool := (octets? cs).isSome || (pieces? cs).isSome

/-! ## The looser form -/

/-- The digits of a number and its base; a zero in front is for eight, and `0x` for sixteen. -/
def splitBase (cs : List Char) : Nat × List Char :=
  match cs with
  | '0' :: 'x' :: rest => (16, rest)
  | '0' :: 'X' :: rest => (16, rest)
  | '0' :: c :: rest => (8, c :: rest)
  | _ => (10, cs)

/-- A number in any of the bases; `0x` alone is zero. -/
def looseNumber? (cs : List Char) : Option Nat :=
  if cs.isEmpty then none
  else
    let (base, digits) := splitBase cs
    digits.foldl (fun n c => do
      let d ← hexValue? c
      if d < base then some (base * (← n) + d) else none) (some 0)

/-- The parts between dots, without the empty one after a dot at the end. -/
def dottedParts (cs : List Char) : List (List Char) :=
  let parts := Text.splitOn '.' cs
  if parts.getLast? = some [] then parts.dropLast else parts

/-- A name whose last part is a number has to be an address. -/
def endsInNumber (cs : List Char) : Bool :=
  match (dottedParts cs).getLast? with
  | some last => Text.isNumeral last || (looseNumber? last).isSome
  | none => false

/-- The address as one number; the last part fills all bytes that are left. -/
def looseAddress? (cs : List Char) : Option Nat := do
  let numbers ← (dottedParts cs).mapM looseNumber?
  let last ← numbers.getLast?
  let front := numbers.dropLast
  if 3 < front.length || 1 <<< (8 * (4 - front.length)) ≤ last || front.any (255 < ·) then none
  else some (front.foldl (fun n b => 256 * n + b) 0 <<< (8 * (4 - front.length)) + last)

end Cadence.Url
