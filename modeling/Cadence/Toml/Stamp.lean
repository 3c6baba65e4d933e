import Cadence.Text.Basic
import Cadence.Text.Digits
import Cadence.Time.Date

/-!
# Dates and times in documents

Dates, times of day, and both together with or without an offset. A value of this kind is kept as
its text, with `T` between date and time, `Z` for no offset, and no zeros at the end of a fraction.
-/

namespace Cadence.Toml

/-- A number of exactly `width` digits up to a bound, and the characters after it. -/
def fixed? (width low high : Nat) (cs : List Char) : Option (Nat × List Char) := do
  let n ← Text.natOf? (cs.take width)
  if (cs.take width).length = width && low ≤ n && n ≤ high then some (n, cs.drop width) else none

def mark? (mark : Char) : List Char → Option (List Char)
  | c :: rest => if c = mark then some rest else none
  | [] => none

/-- The text of a date and the characters after it. -/
def date? (cs : List Char) : Option (String × List Char) := do
  let (year, rest) ← fixed? 4 0 9999 cs
  let (month, rest) ← fixed? 2 1 12 (← mark? '-' rest)
  let (day, rest) ← fixed? 2 1 (Date.daysInMonth year month) (← mark? '-' rest)
  return (Text.padded 4 year ++ "-" ++ Text.padded 2 month ++ "-" ++ Text.padded 2 day, rest)

/-- The text of a fraction of at most nine digits; further digits are dropped. -/
def fraction? (cs : List Char) : Option (String × List Char) :=
  match cs with
  | '.' :: rest =>
    let (digits, rest) := Text.spanDigits rest
    let kept := ((digits.take 9).reverse.dropWhile (· = '0')).reverse
    if digits.isEmpty then none
    else some (if kept.isEmpty then "" else String.ofList ('.' :: kept), rest)
  | _ => some ("", cs)

/-- The text of a time of day and the characters after it. -/
def time? (cs : List Char) : Option (String × List Char) := do
  let (hour, rest) ← fixed? 2 0 23 cs
  let (minute, rest) ← fixed? 2 0 59 (← mark? ':' rest)
  let (second, rest) ← fixed? 2 0 60 (← mark? ':' rest)
  let (fraction, rest) ← fraction? rest
  return (":".intercalate ([hour, minute, second].map (Text.padded 2)) ++ fraction, rest)

/-- The text of an offset that ends the characters; there may be none. -/
def offset? (cs : List Char) : Option String :=
  match cs with
  | [] => some ""
  | ['Z'] | ['z'] => some "Z"
  | sign :: rest => do
    if sign ≠ '+' && sign ≠ '-' then none
    let (hour, rest) ← fixed? 2 0 23 rest
    let (minute, rest) ← fixed? 2 0 59 (← mark? ':' rest)
    if rest.isEmpty then
      some (String.ofList [sign] ++ Text.padded 2 hour ++ ":" ++ Text.padded 2 minute)
    else none

/-- The text of a date, a time or both, if the characters are one. -/
def stamp? (cs : List Char) : Option String :=
  match date? cs with
  | some (date, []) => some date
  | some (date, c :: rest) =>
    if c = 'T' || c = 't' || c = ' ' then do
      let (time, rest) ← time? rest
      return date ++ "T" ++ time ++ (← offset? rest)
    else none
  | none => match time? cs with
    | some (time, []) => some time
    | _ => none

end Cadence.Toml
