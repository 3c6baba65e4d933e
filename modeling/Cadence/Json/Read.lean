import Cadence.Json.Basic

/-!
# JSON text: reading

The grammar of RFC 8259 with these limits: arrays and objects nest at most `maxDepth` deep, an
escaped surrogate has its partner beside it, and a number is within the range of a float. An integer
that 64 bits hold, signed or not, stays an integer; `-0` does not, as its sign would be lost.

Each reader takes the characters that are left and gives back what it read and the characters after
it, or nothing where the text is malformed.
-/

namespace Cadence.Json

/-- How deep arrays and objects may nest. -/
def maxDepth : Nat := 127

/-- The characters allowed between tokens. -/
def isGap (c : Char) : Bool := c = ' ' || c = '\n' || c = '\r' || c = '\t'

def skipGaps (cs : List Char) : List Char := cs.dropWhile isGap

/-- The value of a hexadecimal digit. -/
def hexValue? (c : Char) : Option Nat :=
  if '0' ≤ c ∧ c ≤ '9' then some (c.toNat - 48)
  else if 'a' ≤ c ∧ c ≤ 'f' then some (c.toNat - 87)
  else if 'A' ≤ c ∧ c ≤ 'F' then some (c.toNat - 55)
  else none

def hex4? (a b c d : Char) : Option Nat := do
  return (((← hexValue? a) * 16 + (← hexValue? b)) * 16 + (← hexValue? c)) * 16 + (← hexValue? d)

def isHighSurrogate (n : Nat) : Bool := 0xD800 ≤ n && n ≤ 0xDBFF
def isLowSurrogate (n : Nat) : Bool := 0xDC00 ≤ n && n ≤ 0xDFFF

/-- The character that stands for a letter after a backslash. -/
def shortEscape? : Char → Option Char
  | '"' => some '"'
  | '\\' => some '\\'
  | '/' => some '/'
  | 'b' => some '\x08'
  | 'f' => some '\x0c'
  | 'n' => some '\n'
  | 'r' => some '\r'
  | 't' => some '\t'
  | _ => none

/-- The rest of a string whose characters so far are `done`, last one first. -/
def readString (done : List Char) : List Char → Option (String × List Char)
  | [] => none
  | '"' :: rest => some (String.ofList done.reverse, rest)
  | '\\' :: 'u' :: a :: b :: c :: d :: rest =>
    match hex4? a b c d with
    | none => none
    | some n =>
      if isLowSurrogate n then none
      else if isHighSurrogate n then
        match rest with
        | '\\' :: 'u' :: e :: f :: g :: h :: rest =>
          match hex4? e f g h with
          | some low =>
            if isLowSurrogate low then
              readString (Char.ofNat (0x10000 + (n - 0xD800) * 0x400 + (low - 0xDC00)) :: done) rest
            else none
          | none => none
        | _ => none
      else readString (Char.ofNat n :: done) rest
  | '\\' :: c :: rest =>
    match shortEscape? c with
    | some e => readString (e :: done) rest
    | none => none
  | c :: rest => if c.toNat < 32 then none else readString (c :: done) rest

/-- The fraction of a number: a point and at least one digit, or nothing. -/
def readFraction : List Char → Option (List Char × List Char)
  | '.' :: rest =>
    let (ds, rest) := Text.spanDigits rest
    if ds.isEmpty then none else some (ds, rest)
  | rest => some ([], rest)

/-- The exponent of a number: a letter `e`, an optional sign and at least one digit, or nothing. -/
def readExponent : List Char → Option (Option Int × List Char)
  | c :: rest =>
    if c = 'e' ∨ c = 'E' then
      let (negative, rest) : Bool × List Char := match rest with
        | '+' :: rest => (false, rest)
        | '-' :: rest => (true, rest)
        | _ => (false, rest)
      let (ds, rest) := Text.spanDigits rest
      let n : Int := Nat.ofDigitChars 10 ds 0
      if ds.isEmpty then none else some (some (if negative then -n else n), rest)
    else some (none, c :: rest)
  | [] => some (none, [])

/-- The value of a number's parts; none for one beyond the range of a float. -/
def numberOf? (negative : Bool) (whole places : List Char) (exponent : Option Int) : Option Json :=
  let n := Nat.ofDigitChars 10 whole 0
  let asFloat : Option Json :=
    let x := Number.Binary64.ofDecimal negative (Nat.ofDigitChars 10 (whole ++ places) 0)
      (exponent.getD 0 - places.length)
    if x.isFinite then some (.float x) else none
  if !places.isEmpty || exponent.isSome then asFloat
  else if negative then
    if n = 0 || decide (-(n : Int) < Text.i64Min) then asFloat else some (.int (-(n : Int)))
  else if Text.u64Max < n then asFloat else some (.int n)

/-- A number: no leading zeros, and no sign but a minus. -/
def readNumber (cs : List Char) : Option (Json × List Char) := do
  let (negative, cs) : Bool × List Char := match cs with
    | '-' :: rest => (true, rest)
    | _ => (false, cs)
  let (whole, rest) := Text.spanDigits cs
  if whole.isEmpty || (whole.head? = some '0' && 1 < whole.length) then none
  let (places, rest) ← readFraction rest
  let (exponent, rest) ← readExponent rest
  let v ← numberOf? negative whole places exponent
  return (v, rest)

/-- A value that is neither an array nor an object. -/
def readScalar : List Char → Option (Json × List Char)
  | 'n' :: 'u' :: 'l' :: 'l' :: rest => some (.null, rest)
  | 't' :: 'r' :: 'u' :: 'e' :: rest => some (.bool true, rest)
  | 'f' :: 'a' :: 'l' :: 's' :: 'e' :: rest => some (.bool false, rest)
  | '"' :: rest => (readString [] rest).map fun (s, rest) => (.str s, rest)
  | cs => readNumber cs

/-- The items of an array from one item on, up to its end. Each item takes a character at least. -/
def readItems (item : List Char → Option (Json × List Char)) :
    Nat → List Json → List Char → Option (List Json × List Char)
  | 0, _, _ => none
  | fuel + 1, done, cs =>
    match item cs with
    | none => none
    | some (v, rest) =>
      match skipGaps rest with
      | ',' :: rest => readItems item fuel (v :: done) rest
      | ']' :: rest => some ((v :: done).reverse, rest)
      | _ => none

/-- The members of an object from one member on, up to its end. -/
def readMembers (item : List Char → Option (Json × List Char)) :
    Nat → List (String × Json) → List Char → Option (List (String × Json) × List Char)
  | 0, _, _ => none
  | fuel + 1, done, cs =>
    match skipGaps cs with
    | '"' :: rest =>
      match readString [] rest with
      | none => none
      | some (name, rest) =>
        match skipGaps rest with
        | ':' :: rest =>
          match item rest with
          | none => none
          | some (v, rest) =>
            match skipGaps rest with
            | ',' :: rest => readMembers item fuel ((name, v) :: done) rest
            | '\x7d' :: rest => some (((name, v) :: done).reverse, rest)
            | _ => none
        | _ => none
    | _ => none

/-- A value with arrays and objects at most `depth` deep. -/
def readValue : Nat → List Char → Option (Json × List Char)
  | 0, cs => readScalar (skipGaps cs)
  | depth + 1, cs =>
    match skipGaps cs with
    | '[' :: rest =>
      match skipGaps rest with
      | ']' :: rest => some (.arr [], rest)
      | rest => (readItems (readValue depth) (rest.length + 1) [] rest).map
          fun (items, rest) => (.arr items, rest)
    | '\x7b' :: rest =>
      match skipGaps rest with
      | '\x7d' :: rest => some (.obj [], rest)
      | rest => (readMembers (readValue depth) (rest.length + 1) [] rest).map
          fun (members, rest) => (.obj members, rest)
    | cs => readScalar cs

/-- The value that a whole text spells. -/
def read? (s : String) : Option Json :=
  match readValue maxDepth s.toList with
  | some (v, rest) => if (skipGaps rest).isEmpty then some v else none
  | none => none

end Cadence.Json
