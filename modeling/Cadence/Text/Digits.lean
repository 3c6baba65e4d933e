/-!
# Decimal digits

Reading numbers written in decimal digits, with an optional sign and within limits.
-/

namespace Cadence.Text

/-- A non-empty run of digits and nothing else. -/
def isNumeral (cs : List Char) : Bool := !cs.isEmpty && cs.all Char.isDigit

/-- The number that a non-empty run of digits spells. -/
def natOf? (cs : List Char) : Option Nat :=
  if isNumeral cs then some (Nat.ofDigitChars 10 cs 0) else none

/-- A number of at most `bound`, with an optional plus sign. -/
def unsigned? (bound : Nat) (cs : List Char) : Option Nat :=
  let digits := match cs with
    | '+' :: rest => rest
    | _ => cs
  (natOf? digits).filter (· ≤ bound)

/-- A number from `low` to `high`, with an optional sign. -/
def signed? (low high : Int) (cs : List Char) : Option Int :=
  let n := match cs with
    | '+' :: rest => (natOf? rest).map Int.ofNat
    | '-' :: rest => (natOf? rest).map (fun n => -Int.ofNat n)
    | _ => (natOf? cs).map Int.ofNat
  n.filter (fun n => low ≤ n && n ≤ high)

/-- The digits at the front of the characters, and the rest. -/
def spanDigits (cs : List Char) : List Char × List Char :=
  (cs.takeWhile Char.isDigit, cs.dropWhile Char.isDigit)

/-- The greatest unsigned numbers of 16, 32 and 64 bits. -/
def u16Max : Nat := 65535
def u32Max : Nat := 4294967295
def u64Max : Nat := 18446744073709551615

/-- The limits of signed numbers of 32 and 64 bits. -/
def i32Min : Int := -2147483648
def i32Max : Int := 2147483647
def i64Min : Int := -9223372036854775808
def i64Max : Int := 9223372036854775807

/-- The digits of a number, with zeros in front up to a width. -/
def padded (width n : Nat) : String :=
  let digits := Nat.toDigits 10 n
  String.ofList (List.replicate (width - digits.length) '0' ++ digits)

end Cadence.Text
