import Cadence.Schedule.Field
import Cadence.Text.Digits

/-!
# Schedule expressions

The text of a schedule: six or seven fields, read one after the other. A field is a list of items
with commas between them. Blanks around the list and around each number and name are skipped; a
field ends where its list cannot go on, so that blanks between fields are needed only where two
items would run together.

- an item is a specifier, a specifier with a step, or a name;
- a specifier is a star, a number, a range of numbers or a range of names, and for the days also a
  question mark;
- a number with a step starts a progression that runs to the end of the component.
-/

namespace Cadence.Schedule

/-- The characters between numbers, names and fields. -/
def isGap (c : Char) : Bool := c = ' ' || c = '\t' || c = '\r' || c = '\n'

def skipGaps (cs : List Char) : List Char := cs.dropWhile isGap

inductive Specifier
  | all
  | point (n : Nat)
  | range (first last : Nat)
  | namedRange (first last : List Char)
  deriving DecidableEq, Repr

inductive Item
  | plain (s : Specifier)
  | stepped (s : Specifier) (step : Nat)
  | named (name : List Char)
  deriving DecidableEq, Repr

/-! ## Reading -/

/-- A number of 32 bits with the blanks around it. -/
def readNumber (cs : List Char) : Option (Nat × List Char) :=
  let (digits, rest) := Text.spanDigits (skipGaps cs)
  (Text.natOf? digits).bind fun n =>
    if n ≤ Text.u32Max then some (n, skipGaps rest) else none

/-- A run of letters with the blanks around it. -/
def readName (cs : List Char) : Option (List Char × List Char) :=
  let cs := skipGaps cs
  let letters := cs.takeWhile Char.isAlpha
  if letters.isEmpty then none else some (letters, skipGaps (cs.dropWhile Char.isAlpha))

/-- What follows a dash, if the reader accepts it. -/
def readAfterDash {α : Type} (read : List Char → Option (α × List Char)) :
    List Char → Option (α × List Char)
  | '-' :: rest => read rest
  | _ => none

def readSpecifier (c : Component) (cs : List Char) : Option (Specifier × List Char) :=
  match cs with
  | '*' :: rest => some (.all, rest)
  | '?' :: rest => if c.allowsAny then some (.all, rest) else none
  | _ =>
    match readNumber cs with
    | some (n, rest) =>
      match readAfterDash readNumber rest with
      | some (m, rest) => some (.range n m, rest)
      | none => some (.point n, rest)
    | none =>
      (readName cs).bind fun (a, rest) =>
        (readAfterDash readName rest).map fun (b, rest) => (.namedRange a b, rest)

def readItem (c : Component) (cs : List Char) : Option (Item × List Char) :=
  match readSpecifier c cs with
  | some (s, rest) =>
    match rest with
    | '/' :: after =>
      match readNumber after with
      | some (step, rest) => some (.stepped s step, rest)
      | none => some (.plain s, rest)
    | _ => some (.plain s, rest)
  | none => (readName cs).map fun (name, rest) => (.named name, rest)

/-- The items after the first; a comma with no item after it is left. -/
def readItems (c : Component) : Nat → List Char → List Item × List Char
  | 0, cs => ([], cs)
  | fuel + 1, cs =>
    match cs with
    | ',' :: after =>
      match readItem c after with
      | some (item, rest) =>
        let (items, rest) := readItems c fuel rest
        (item :: items, rest)
      | none => ([], cs)
    | _ => ([], cs)

/-- A list of items with the blanks around it. -/
def readList (c : Component) (cs : List Char) : Option (List Item × List Char) :=
  (readItem c (skipGaps cs)).map fun (item, rest) =>
    let (items, rest) := readItems c rest.length rest
    (item :: items, skipGaps rest)

/-! ## Meaning -/

/-- The first and the last number of a range within the component. -/
def range? (c : Component) (first last : Nat) : Option (Nat × Nat) :=
  if c.admits first && c.admits last && first ≤ last then some (first, last) else none

/-- The first and the last number of a specifier; `openEnd` tells that a point starts a range to the
end of the component. -/
def Specifier.bounds? (c : Component) (openEnd : Bool) : Specifier → Option (Nat × Nat)
  | .all => some (c.low, c.high)
  | .point n => range? c n (if openEnd then c.high else n)
  | .range a b => range? c a b
  | .namedRange a b => do range? c (← c.named? a) (← c.named? b)

/-- The numbers of an item; none where a number is out of range, a range descends or a step is zero
or above the greatest number of the component. -/
def Item.progression? (c : Component) : Item → Option Progression
  | .plain s => (s.bounds? c false).map fun (a, b) => ⟨a, b, 1⟩
  | .stepped s step =>
    if 1 ≤ step ∧ step ≤ c.high then (s.bounds? c true).map fun (a, b) => ⟨a, b, step⟩ else none
  | .named name => (c.named? name).map fun n => ⟨n, n, 1⟩

/-- The field at the front of a text. -/
def readField (c : Component) (cs : List Char) : Option (Field × List Char) :=
  (readList c cs).bind fun (items, rest) =>
    (items.mapM (Item.progression? c)).map fun f => (f, rest)

/-- The field that a whole text denotes. -/
def fieldOf? (c : Component) (cs : List Char) : Option Field :=
  match readField c cs with
  | some (f, []) => some f
  | _ => none

end Schedule

open Schedule in
/-- The numbers that each component may have. -/
structure Schedule where
  seconds : Field
  minutes : Field
  hours : Field
  daysOfMonth : Field
  months : Field
  weekdays : Field
  years : Field
  deriving DecidableEq, Repr

namespace Schedule

/-- The schedule of a text of fields. Without a seventh field every year is meant. -/
def ofFields? (cs : List Char) : Option Schedule := do
  let (seconds, cs) ← readField .second cs
  let (minutes, cs) ← readField .minute cs
  let (hours, cs) ← readField .hour cs
  let (daysOfMonth, cs) ← readField .dayOfMonth cs
  let (months, cs) ← readField .month cs
  let (weekdays, cs) ← readField .weekday cs
  let years ← if cs.isEmpty then some [Progression.all .year] else fieldOf? .year cs
  return ⟨seconds, minutes, hours, daysOfMonth, months, weekdays, years⟩

/-- The shorthands, and the fields that they stand for. -/
def shorthands : List (String × String) :=
  [("@yearly", "0 0 0 1 1 * *"), ("@monthly", "0 0 0 1 * * *"), ("@weekly", "0 0 0 * * 1 *"),
    ("@daily", "0 0 0 * * * *"), ("@hourly", "0 0 * * * * *")]

/-- The schedule of a text of fields or of a shorthand with blanks around it. -/
def read? (s : String) : Option Schedule :=
  let bare := skipGaps (skipGaps s.toList).reverse |>.reverse
  match shorthands.lookup (String.ofList bare) with
  | some fields => ofFields? fields.toList
  | none => ofFields? s.toList

end Schedule

end Cadence
