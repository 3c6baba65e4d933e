import Cadence.Json.Read
import Cadence.Toml.Stamp
import Cadence.Toml.Table

/-!
# Reading TOML

A document is read line by line; each line names a table, gives a key its value, or is empty. What
is read is put into tables under construction at once, so that a name that is given twice is found
where it is given.
-/

namespace Cadence.Toml

/-! ## Blanks and comments -/

def isGap (c : Char) : Bool := c = ' ' || c = '\t'

def skipGaps (cs : List Char) : List Char := cs.dropWhile isGap

/-- Control characters, which stand nowhere but at line ends; the tab is none. -/
def isControl (c : Char) : Bool := (c.toNat < 32 && c ≠ '\t') || c.toNat = 127

/-- The characters after an optional comment: the line end, or nothing. -/
def skipComment? (cs : List Char) : Option (List Char) :=
  match cs with
  | '#' :: rest =>
    let rest := rest.dropWhile fun c => !isControl c || c.toNat = 127
    match rest with
    | [] | '\n' :: _ | '\r' :: '\n' :: _ => some rest
    | _ => none
  | _ => some cs

/-- The characters after blanks, comments and line ends. -/
def skipLines : Nat → List Char → Option (List Char)
  | 0, _ => none
  | fuel + 1, cs => do
    match ← skipComment? (skipGaps cs) with
    | '\n' :: rest => skipLines fuel rest
    | '\r' :: '\n' :: rest => skipLines fuel rest
    | rest => some rest

/-- The characters after the end of a line. -/
def endLine? (cs : List Char) : Option (List Char) := do
  match ← skipComment? (skipGaps cs) with
  | [] => some []
  | '\n' :: rest => some rest
  | '\r' :: '\n' :: rest => some rest
  | _ => none

/-! ## Strings -/

def escaped? : Char → Option Char
  | 'b' => some '\x08'
  | 't' => some '\t'
  | 'n' => some '\n'
  | 'f' => some '\x0c'
  | 'r' => some '\r'
  | '"' => some '"'
  | '\\' => some '\\'
  | _ => none

def charOf? (code : Nat) : Option Char :=
  if code.isValidChar then some (Char.ofNat code) else none

/-- A string in double quotes, from behind the first one on; what is read so far stands backwards.
-/
def readQuoted (done : List Char) : List Char → Option (List Char × List Char)
  | [] => none
  | '"' :: rest => some (done.reverse, rest)
  | '\\' :: 'u' :: a :: b :: c :: d :: rest => do
    readQuoted ((← charOf? (← Json.hex4? a b c d)) :: done) rest
  | '\\' :: 'U' :: a :: b :: c :: d :: e :: f :: g :: h :: rest => do
    let code := 65536 * (← Json.hex4? a b c d) + (← Json.hex4? e f g h)
    readQuoted ((← charOf? code) :: done) rest
  | '\\' :: c :: rest => do readQuoted ((← escaped? c) :: done) rest
  | c :: rest => if isControl c then none else readQuoted (c :: done) rest

/-- A string in single quotes. -/
def readLiteral (cs : List Char) : Option (List Char × List Char) :=
  match cs.dropWhile fun c => c ≠ '\'' && !isControl c with
  | '\'' :: rest => some (cs.takeWhile fun c => c ≠ '\'' && !isControl c, rest)
  | _ => none

/-- Nothing but blanks stands before the line end. -/
def lineEnds (cs : List Char) : Bool :=
  match skipGaps cs with
  | '\n' :: _ | '\r' :: '\n' :: _ => true
  | _ => false

/-- The quotes at the end of a long string that belong to it, and the characters after it. -/
def closing? (quote : Char) (cs : List Char) : Option (List Char × List Char) :=
  let run := (cs.take 5).takeWhile (· = quote)
  if run.length < 3 then none else some (run.drop 3, cs.drop run.length)

/-- A string in triple quotes, from behind the first ones on. Up to two quotes may stand before the
closing ones. A backslash at the end of a line skips to the next character that is no blank. -/
def readLong (quote : Char) (skipping : Bool) (done : List Char) :
    List Char → Option (List Char × List Char)
  | [] => none
  | '\r' :: '\n' :: rest => readLong quote skipping (if skipping then done else '\n' :: done) rest
  | '\n' :: rest => readLong quote skipping (if skipping then done else '\n' :: done) rest
  | '\\' :: rest =>
    if quote = '\'' then readLong quote false ('\\' :: done) rest
    else if lineEnds rest then readLong quote true done rest
    else match rest with
      | 'u' :: a :: b :: c :: d :: rest => do
        readLong quote false ((← charOf? (← Json.hex4? a b c d)) :: done) rest
      | 'U' :: a :: b :: c :: d :: e :: f :: g :: h :: rest => do
        let code := 65536 * (← Json.hex4? a b c d) + (← Json.hex4? e f g h)
        readLong quote false ((← charOf? code) :: done) rest
      | c :: rest => do readLong quote false ((← escaped? c) :: done) rest
      | [] => none
  | c :: rest =>
    match closing? quote (c :: rest) with
    | some (last, rest) => some (done.reverse ++ last, rest)
    | none =>
      if skipping && isGap c then readLong quote true done rest
      else if isControl c then none
      else readLong quote false (c :: done) rest

/-- The characters without a line end at the front. -/
def dropLineEnd : List Char → List Char
  | '\n' :: rest => rest
  | '\r' :: '\n' :: rest => rest
  | cs => cs

/-- A string of any kind. -/
def readString : List Char → Option (String × List Char)
  | '"' :: '"' :: '"' :: rest => text (readLong '"' false [] (dropLineEnd rest))
  | '\'' :: '\'' :: '\'' :: rest => text (readLong '\'' false [] (dropLineEnd rest))
  | '"' :: rest => text (readQuoted [] rest)
  | '\'' :: rest => text (readLiteral rest)
  | _ => none
where
  text (r : Option (List Char × List Char)) : Option (String × List Char) :=
    r.map fun (cs, rest) => (String.ofList cs, rest)

/-! ## Keys -/

def isBare (c : Char) : Bool := c.isAlphanum || c = '-' || c = '_'

/-- One name of a key. -/
def readName (cs : List Char) : Option (String × List Char) :=
  match cs with
  | '"' :: rest => (readQuoted [] rest).map fun (cs, rest) => (String.ofList cs, rest)
  | '\'' :: rest => (readLiteral rest).map fun (cs, rest) => (String.ofList cs, rest)
  | _ =>
    let name := cs.takeWhile isBare
    if name.isEmpty then none else some (String.ofList name, cs.dropWhile isBare)

/-- The names of a key with dots, and the characters after the blanks behind it. -/
def readKey : Nat → List Char → Option (List String × List Char)
  | 0, _ => none
  | fuel + 1, cs => do
    let (name, rest) ← readName cs
    match skipGaps rest with
    | '.' :: rest =>
      let (names, rest) ← readKey fuel (skipGaps rest)
      return (name :: names, rest)
    | rest => return ([name], rest)

/-! ## Numbers -/

/-- Digits with underscores between them, without the underscores. -/
def digits? (isDigit : Char → Bool) (cs : List Char) : Option (List Char) :=
  let parts := Text.splitOn '_' cs
  if parts.all fun p => !p.isEmpty && p.all isDigit then some parts.flatten else none

/-- The digits of a whole number; there is no zero in front. -/
def wholeDigits? (cs : List Char) : Option (List Char) := do
  let ds ← digits? Char.isDigit cs
  if ds.head? = some '0' && 1 < ds.length then none else some ds

/-- A number in a base below ten or sixteen. -/
def inBase? (base : Nat) (cs : List Char) : Option Nat := do
  let ds ← digits? (fun c => ((Json.hexValue? c).getD base) < base) cs
  return ds.foldl (fun n c => base * n + (Json.hexValue? c).getD 0) 0

/-- An exponent: a sign and digits, or nothing at all. -/
def exponent? : List Char → Option Int
  | [] => some 0
  | c :: rest => do
    if c ≠ 'e' && c ≠ 'E' then none
    let (negative, ds) := match rest with
      | '+' :: ds => (false, ds)
      | '-' :: ds => (true, ds)
      | ds => (false, ds)
    let n := Nat.ofDigitChars 10 (← digits? Char.isDigit ds) 0
    return if negative then -(n : Int) else n

/-- A number with a fraction or an exponent. -/
def float? (negative : Bool) (cs : List Char) : Option Value := do
  let isPart (c : Char) : Bool := c.isDigit || c = '_'
  let whole ← wholeDigits? (cs.takeWhile isPart)
  let rest := cs.dropWhile isPart
  let (places, rest) ← match rest with
    | '.' :: rest => (digits? Char.isDigit (rest.takeWhile isPart)).map (·, rest.dropWhile isPart)
    | _ => some ([], rest)
  let e ← exponent? rest
  let x := Number.Binary64.ofDecimal negative (Nat.ofDigitChars 10 (whole ++ places) 0)
    (e - places.length)
  if x.isFinite then some (.float x) else none

/-- An integer of 64 bits. -/
def int64? (n : Int) : Option Value :=
  if Text.i64Min ≤ n && n ≤ Text.i64Max then some (.int n) else none

def unsignedNumber? (negative : Bool) (cs : List Char) : Option Value :=
  if cs = "inf".toList then some (.float (.infinite negative))
  else if cs = "nan".toList then some (.float .nan)
  else match wholeDigits? cs with
    | some ds =>
      let n : Int := Nat.ofDigitChars 10 ds 0
      int64? (if negative then -n else n)
    | none => float? negative cs

def number? : List Char → Option Value
  | '0' :: 'x' :: ds => (inBase? 16 ds).bind fun n => int64? n
  | '0' :: 'o' :: ds => (inBase? 8 ds).bind fun n => int64? n
  | '0' :: 'b' :: ds => (inBase? 2 ds).bind fun n => int64? n
  | '+' :: cs => unsignedNumber? false cs
  | '-' :: cs => unsignedNumber? true cs
  | cs => unsignedNumber? false cs

/-! ## Values -/

def isPlain (c : Char) : Bool := c.isAlphanum || "+-_.:".toList.contains c

/-- The characters of a value without quotes or brackets. A space may stand between a date and a
time. -/
def spanPlain (cs : List Char) : List Char × List Char :=
  let token := cs.takeWhile isPlain
  match date? token, cs.dropWhile isPlain with
  | some (_, []), ' ' :: rest =>
    let time := rest.takeWhile isPlain
    if (time? time).isSome then (token ++ ' ' :: time, rest.dropWhile isPlain)
    else (token, ' ' :: rest)
  | _, rest => (token, rest)

def plain? (cs : List Char) : Option Value :=
  if cs = "true".toList then some (.bool true)
  else if cs = "false".toList then some (.bool false)
  else match number? cs with
    | some v => some v
    | none => (stamp? cs).map .text

mutual

/-- A value. -/
def readValue : Nat → List Char → Option (Value × List Char)
  | 0, _ => none
  | fuel + 1, cs =>
    match cs with
    | '[' :: rest => readItems fuel [] rest
    | '\x7b' :: rest =>
      match skipGaps rest with
      | '\x7d' :: rest => some (.table [], rest)
      | rest => readPairs fuel [] rest
    | '"' :: _ | '\'' :: _ => (readString cs).map fun (s, rest) => (.text s, rest)
    | _ =>
      let (token, rest) := spanPlain cs
      (plain? token).map (·, rest)

/-- The items of an array; what is read so far stands backwards. -/
def readItems : Nat → List Value → List Char → Option (Value × List Char)
  | 0, _, _ => none
  | fuel + 1, done, cs => do
    match ← skipLines (cs.length + 1) cs with
    | ']' :: rest => some (.array done.reverse, rest)
    | cs =>
      let (v, rest) ← readValue fuel cs
      match ← skipLines (rest.length + 1) rest with
      | ',' :: rest => readItems fuel (v :: done) rest
      | ']' :: rest => some (.array (v :: done).reverse, rest)
      | _ => none

/-- The keys and values of a table in braces. -/
def readPairs : Nat → Members → List Char → Option (Value × List Char)
  | 0, _, _ => none
  | fuel + 1, done, cs => do
    let (names, rest) ← readKey (cs.length + 1) (skipGaps cs)
    let (v, rest) ← readValue fuel (skipGaps (← mark? '=' rest))
    let done ← done.assign v names
    match skipGaps rest with
    | ',' :: rest => readPairs fuel done rest
    | '\x7d' :: rest => some (.table (membersToValue done), rest)
    | _ => none

end

/-! ## Documents -/

/-- The lines from a place on, under the table that the last header named. -/
def readLines : Nat → List String → Members → List Char → Option Members
  | 0, _, _, _ => none
  | fuel + 1, header, ms, cs => do
    match skipGaps cs with
    | [] => some ms
    | '[' :: '[' :: rest =>
      let (names, rest) ← readKey (rest.length + 1) (skipGaps rest)
      let rest ← endLine? (← mark? ']' (← mark? ']' rest))
      readLines fuel names (← ms.modify Members.declareItem names) rest
    | '[' :: rest =>
      let (names, rest) ← readKey (rest.length + 1) (skipGaps rest)
      let rest ← endLine? (← mark? ']' rest)
      readLines fuel names (← ms.modify Members.declare names) rest
    | c :: cs =>
      if c = '#' || c = '\n' || c = '\r' then readLines fuel header ms (← endLine? (c :: cs))
      else
        let (names, rest) ← readKey (cs.length + 2) (c :: cs)
        let (v, rest) ← readValue (cs.length + 2) (skipGaps (← mark? '=' rest))
        readLines fuel header (← ms.assignUnder names v header) (← endLine? rest)

/-- The members of a document. A mark of byte order at its start is skipped. -/
def read? (s : String) : Option (List (String × Value)) :=
  let cs := match s.toList with
    | '\ufeff' :: rest => rest
    | cs => cs
  (readLines (cs.length + 1) [] [] cs).map membersToValue

end Cadence.Toml
