import Cadence.Text.Basic
import Cadence.Text.Digits
import Cadence.Time.Instant

/-!
# Time stamps

The written form of an instant, RFC 3339. Written with `T`, `Z` and as many triples of fraction
digits as are needed; a year outside 0 to 9999 has a sign. Read more liberally: blanks before each
number, any offset below a day, a space for the `T`, and digits beyond the ninth of a fraction.
-/

namespace Cadence.Stamp

/-! ## Writing -/

def yearText (y : Int) : String :=
  if 0 ≤ y ∧ y ≤ 9999 then Text.padded 4 y.toNat
  else (if y < 0 then "-" else "+") ++ Text.padded 4 y.natAbs

def fractionText (nano : Nat) : String :=
  if nano = 0 then ""
  else if nano % 1000000 = 0 then "." ++ Text.padded 3 (nano / 1000000)
  else if nano % 1000 = 0 then "." ++ Text.padded 6 (nano / 1000)
  else "." ++ Text.padded 9 nano

/-- The stamp of an instant with marks between date and time and for the zone; a leap second has the
second 60. -/
def writeWith (gap zone : String) (t : Instant) : String :=
  let d := Date.ofDayNumber t.day
  let leap := t.nano / 1000000000
  yearText d.year ++ "-" ++ Text.padded 2 d.month ++ "-" ++ Text.padded 2 d.day ++ gap ++
    Text.padded 2 (t.second / 3600) ++ ":" ++ Text.padded 2 (t.second / 60 % 60) ++ ":" ++
    Text.padded 2 (t.second % 60 + leap) ++ fractionText (t.nano % 1000000000) ++ zone

def write (t : Instant) : String := writeWith "T" "Z" t

/-- The stamp with the offset of the zone in numbers. -/
def writeOffset (t : Instant) : String := writeWith "T" "+00:00" t

/-- The stamp as it stands in sentences. -/
def writeSpaced (t : Instant) : String := writeWith " " " UTC" t

/-- The stamp as it stands in file names: digits down to the millisecond, in an order that is that
of the times. -/
def writeCompact (t : Instant) : String :=
  let d := Date.ofDayNumber t.day
  yearText d.year ++ Text.padded 2 d.month ++ Text.padded 2 d.day ++ "_" ++
    Text.padded 2 (t.second / 3600) ++ Text.padded 2 (t.second / 60 % 60) ++
    Text.padded 2 (t.second % 60 + t.nano / 1000000000) ++ Text.padded 3 (t.nano / 1000000 % 1000)

/-! ## Reading -/

/-- A number of one to `width` digits, blanks before it skipped. -/
def readNumber (width : Nat) (cs : List Char) : Option (Nat × List Char) :=
  let cs := Text.trimStart cs
  let digits := (cs.take width).takeWhile Char.isDigit
  if digits.isEmpty then none else some (Nat.ofDigitChars 10 digits 0, cs.drop digits.length)

/-- A year: one to four digits, or any number of digits after a sign. -/
def readYear (cs : List Char) : Option (Int × List Char) :=
  match Text.trimStart cs with
  | '-' :: rest =>
    let (ds, rest) := Text.spanDigits rest
    if ds.isEmpty then none else some (-(Nat.ofDigitChars 10 ds 0 : Int), rest)
  | '+' :: rest =>
    let (ds, rest) := Text.spanDigits rest
    if ds.isEmpty then none else some ((Nat.ofDigitChars 10 ds 0 : Int), rest)
  | cs => (readNumber 4 cs).map fun (n, rest) => (n, rest)

/-- A mark after optional blanks. -/
def readMark (mark : Char) (cs : List Char) : Option (List Char) :=
  match Text.trimStart cs with
  | c :: rest => if c = mark then some rest else none
  | [] => none

/-- The nanoseconds of a fraction, if there is one; digits beyond the ninth are dropped. -/
def readFraction : List Char → Option (Nat × List Char)
  | '.' :: rest =>
    let (ds, rest) := Text.spanDigits rest
    if ds.isEmpty then none
    else some (Nat.ofDigitChars 10 ((ds ++ List.replicate 9 '0').take 9) 0, rest)
  | rest => some (0, rest)

/-- The sign of an offset. -/
def readSign : List Char → Option (Int × List Char)
  | '+' :: rest => some (1, rest)
  | '-' :: rest => some (-1, rest)
  | '\u2212' :: rest => some (-1, rest)
  | _ => none

/-- Exactly two digits. -/
def readTwo : List Char → Option (Nat × List Char)
  | a :: b :: rest =>
    if a.isDigit && b.isDigit then some (Nat.ofDigitChars 10 [a, b] 0, rest) else none
  | _ => none

/-- The seconds by which local time is ahead: `Z`, `UTC`, or a sign, hours and minutes with any
colons and blanks between them. -/
def readOffset (cs : List Char) : Option (Int × List Char) :=
  match Text.trimStart cs with
  | 'Z' :: rest => some (0, rest)
  | 'z' :: rest => some (0, rest)
  | cs =>
    if (cs.take 3).map Char.toUpper = ['U', 'T', 'C'] then some (0, cs.drop 3)
    else do
      let (sign, rest) ← readSign cs
      let (hours, rest) ← readTwo rest
      let (minutes, rest) ← readTwo (rest.dropWhile fun c => c = ':' || Text.isBlank c)
      if 60 ≤ minutes then none
      return (sign * (hours * 3600 + minutes * 60), rest)

/-- The instant that a stamp names. -/
def read? (s : String) : Option Instant := do
  let (year, cs) ← readYear s.toList
  let cs ← readMark '-' cs
  let (month, cs) ← readNumber 2 cs
  let cs ← readMark '-' cs
  let (day, cs) ← readNumber 2 cs
  let cs ← match cs with
    | 'T' :: rest => some rest
    | 't' :: rest => some rest
    | ' ' :: rest => some rest
    | _ => none
  let (hour, cs) ← readNumber 2 cs
  let cs ← readMark ':' cs
  let (minute, cs) ← readNumber 2 cs
  let cs ← readMark ':' cs
  let (second, cs) ← readNumber 2 cs
  let (nano, cs) ← readFraction cs
  let (offset, cs) ← readOffset cs
  let date : Date := ⟨year, month, day⟩
  if !(Text.trimStart cs).isEmpty || !date.isValid then none
  if 24 ≤ hour || 60 ≤ minute || 61 ≤ second || 86400 ≤ offset.natAbs then none
  let local? ← Instant.of? date.dayNumber (hour * 3600 + minute * 60 + min second 59)
    (if second = 60 then 0 else nano)
  Instant.ofSeconds? (local?.unixSeconds - offset) (if second = 60 then nano + 1000000000 else nano)

end Cadence.Stamp
