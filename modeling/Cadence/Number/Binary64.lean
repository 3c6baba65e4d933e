import Cadence.Text.Basic
import Cadence.Text.Digits

/-!
# Binary floating point of 64 bits

Numbers `± m · 2 ^ e` with at most 53 significant bits, as exact data. Decimals are rounded to the
nearest such number, ties to the even one, in exact arithmetic.
-/

namespace Cadence.Number

/-- A number of the format; a finite one has `m < 2 ^ 53` and `-1074 ≤ e ≤ 971`. -/
inductive Binary64
  | finite (negative : Bool) (m : Nat) (e : Int)
  | infinite (negative : Bool)
  | nan
  deriving DecidableEq, Repr, Inhabited

namespace Binary64

def minExponent : Int := -1074
def maxExponent : Int := 971

/-- The fraction `num / den` divided by `2 ^ e`, as a fraction. -/
def scaleBy (num den : Nat) (e : Int) : Nat × Nat :=
  if 0 ≤ e then (num, den <<< e.toNat) else (num <<< (-e).toNat, den)

/-- The integer nearest to `num / den`; a tie goes to the even neighbour. -/
def nearest (num den : Nat) : Nat :=
  let q := num / den
  let r := num % den
  if 2 * r < den ∨ (2 * r = den ∧ q % 2 = 0) then q else q + 1

/-- The number nearest to `± num / den`. -/
def ofFraction (negative : Bool) (num den : Nat) : Binary64 :=
  if num = 0 then .finite negative 0 minExponent
  else
    let guess := (num.log2 : Int) - den.log2 - 53
    let (n, d) := scaleBy num den guess
    let e := max (if n / d < 1 <<< 53 then guess else guess + 1) minExponent
    let (n, d) := scaleBy num den e
    let m := nearest n d
    let (m, e) := if m = 1 <<< 53 then (1 <<< 52, e + 1) else (m, e)
    if e ≤ maxExponent then .finite negative m e else .infinite negative

/-- The number nearest to `± digits · 10 ^ exponent`. -/
def ofDecimal (negative : Bool) (digits : Nat) (exponent : Int) : Binary64 :=
  if digits = 0 then .finite negative 0 minExponent
  else if 400 < exponent then .infinite negative
  else if exponent + (Nat.toDigits 10 digits).length < -400 then .finite negative 0 minExponent
  else if 0 ≤ exponent then ofFraction negative (digits * Nat.pow 10 exponent.toNat) 1
  else ofFraction negative digits (Nat.pow 10 (-exponent).toNat)

def isFinite : Binary64 → Bool
  | .finite .. => true
  | _ => false

def isZero : Binary64 → Bool
  | .finite _ 0 _ => true
  | _ => false

/-- The nearest integer, a half away from zero; none for infinities and NaN. -/
def round? : Binary64 → Option Int
  | .finite negative m e =>
    let n : Nat :=
      if 0 ≤ e then m <<< e.toNat
      else (2 * m + 1 <<< (-e).toNat) / (2 <<< (-e).toNat)
    some (if negative then -(n : Int) else n)
  | _ => none

/-- An optional exponent: a letter `e`, an optional sign and digits. -/
def exponentOf? : List Char → Option Int
  | [] => some 0
  | c :: rest =>
    if c = 'e' ∨ c = 'E' then
      match rest with
      | '+' :: ds => (Text.natOf? ds).map Int.ofNat
      | '-' :: ds => (Text.natOf? ds).map (fun n => -Int.ofNat n)
      | ds => (Text.natOf? ds).map Int.ofNat
    else none

/-- A decimal without a sign: digits, a point and an exponent, with at least one digit before or
after the point; or the word of an infinity or of NaN, in any case. -/
def ofUnsignedText? (negative : Bool) (cs : List Char) : Option Binary64 :=
  let word := String.ofList (cs.map Char.toLower)
  if word = "inf" ∨ word = "infinity" then some (.infinite negative)
  else if word = "nan" then some .nan
  else
    let (whole, rest) := Text.spanDigits cs
    let (places, rest) := match rest with
      | '.' :: rest => Text.spanDigits rest
      | _ => ([], rest)
    if whole.isEmpty && places.isEmpty then none
    else
      (exponentOf? rest).map fun e =>
        ofDecimal negative (Nat.ofDigitChars 10 (whole ++ places) 0) (e - places.length)

/-- A decimal with an optional sign. -/
def ofText? : List Char → Option Binary64
  | '+' :: cs => ofUnsignedText? false cs
  | '-' :: cs => ofUnsignedText? true cs
  | cs => ofUnsignedText? false cs

end Binary64

end Cadence.Number
