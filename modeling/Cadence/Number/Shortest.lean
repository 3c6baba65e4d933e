import Cadence.Number.Binary64

/-!
# Shortest decimals

The decimal of fewest digits that is read back as a given binary number, and the two ways in which
this project writes it: in positions only, and with an exponent where the number is large or small.
-/

namespace Cadence.Number.Binary64

/-- A decimal `digits · 10 ^ exponent`. -/
structure Decimal where
  digits : Nat
  exponent : Int
  deriving DecidableEq, Repr

/-- On the grid of the multiples of `10 ^ k`, the neighbour of `m · 2 ^ e` that is read back as this
number, if there is one; of two, the nearer one. The bounds of the numbers read back as it are
`low` and `4 * m + 2` quarters of `2 ^ e`, and belong to them when `m` is even. -/
def onGrid? (m : Nat) (e : Int) (k : Int) : Option Nat :=
  let low := if m = 1 <<< 52 ∧ minExponent < e then 4 * m - 1 else 4 * m - 2
  let (num, den) : Nat × Nat := if 2 ≤ e then (1 <<< (e - 2).toNat, 1) else (1, 1 <<< (2 - e).toNat)
  let (num, den) :=
    if 0 ≤ k then (num, den * Nat.pow 10 k.toNat) else (num * Nat.pow 10 (-k).toNat, den)
  let within (a : Nat) : Bool :=
    if m % 2 = 0 then low * num ≤ a * den && a * den ≤ (4 * m + 2) * num
    else low * num < a * den && a * den < (4 * m + 2) * num
  let below := 4 * m * num / den
  let above := below + 1
  match within below && below != 0, within above with
  | true, true =>
    if 2 * (4 * m * num) ≤ (below + above) * den then some below else some above
  | true, false => some below
  | false, true => some above
  | false, false => none

/-- The first grid with a hit, from `10 ^ k` down. -/
def shortestFrom (m : Nat) (e : Int) : Nat → Int → Decimal
  | 0, _ => ⟨m, 0⟩
  | fuel + 1, k =>
    match onGrid? m e k with
    | some a => ⟨a, k⟩
    | none => shortestFrom m e fuel (k - 1)

/-- The decimal of fewest digits that is read back as `m · 2 ^ e`. -/
def shortest (m : Nat) (e : Int) : Decimal :=
  if m = 0 then ⟨0, 0⟩
  else shortestFrom m e 40 (((m.log2 : Int) + 1 + e) * 30103 / 100000 + 1)

/-- The digits of a decimal with a point in its place; no exponent is written. -/
def Decimal.positional (d : Decimal) : String :=
  let digits := Nat.toDigits 10 d.digits
  if 0 ≤ d.exponent then
    String.ofList (if d.digits = 0 then digits else digits ++ List.replicate d.exponent.toNat '0')
  else
    let places := (-d.exponent).toNat
    let digits := List.replicate (places + 1 - digits.length) '0' ++ digits
    String.ofList (digits.take (digits.length - places) ++ '.' :: digits.drop (digits.length - places))

/-- Positions only: `1000`, `0.5`, `-0`, `inf`, `NaN`. -/
def positional : Binary64 → String
  | .nan => "NaN"
  | .infinite negative => if negative then "-inf" else "inf"
  | .finite negative m e => (if negative then "-" else "") ++ (shortest m e).positional

/-- As JSON has it: a point or an exponent always, and an exponent from `10 ^ 16` up and below
`10 ^ -5`; what is not finite is `null`. -/
def jsonText : Binary64 → String
  | .finite negative m e =>
    let d := shortest m e
    let digits := Nat.toDigits 10 d.digits
    let point : Int := digits.length + d.exponent
    let body :=
      if m = 0 then "0.0"
      else if 0 ≤ d.exponent ∧ point ≤ 16 then d.positional ++ ".0"
      else if -5 < point ∧ point ≤ 16 then d.positional
      else
        let mark := match digits with
          | [] => "0"
          | [c] => String.ofList [c]
          | c :: rest => String.ofList (c :: '.' :: rest)
        mark ++ "e" ++ toString (point - 1)
    (if negative then "-" else "") ++ body
  | _ => "null"

end Cadence.Number.Binary64
