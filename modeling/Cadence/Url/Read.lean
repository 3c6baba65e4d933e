import Cadence.Url.Basic
import Cadence.Url.Domain

/-!
# Reading URLs

A URL is read by itself, or as a reference that is joined to a base. Tabs and line ends are nowhere
part of it, and control characters and spaces not at its ends. In the web's own schemes a backslash
is as good as a slash.
-/

namespace Cadence.Url

variable [HostNames]

inductive Fault
  | emptyHost
  | domain
  | domainCharacter
  | port
  | ipv4
  | ipv6
  | relativeWithoutBase
  /-- a reference to a base whose path is a bare text -/
  | relativeToBare
  deriving DecidableEq, Repr

def Fault.message : Fault → String
  | emptyHost => "empty host"
  | domain => "invalid international domain name"
  | domainCharacter => "invalid domain character"
  | port => "invalid port number"
  | ipv4 => "invalid IPv4 address"
  | ipv6 => "invalid IPv6 address"
  | relativeWithoutBase => "relative URL without a base"
  | relativeToBare => "relative URL with a cannot-be-a-base base"

/-! ## Cutting -/

/-- The characters that are looked at. -/
def cleaned (s : String) : List Char :=
  let dropEnd (cs : List Char) := cs.dropWhile (·.toNat ≤ 32)
  (dropEnd (dropEnd s.toList).reverse).reverse.filter fun c => c ≠ '\t' && c ≠ '\n' && c ≠ '\r'

def isSchemeChar (c : Char) : Bool := c.isAlphanum || c = '+' || c = '-' || c = '.'

/-- The scheme in lower case, and what follows its colon. -/
def cutScheme? (cs : List Char) : Option (String × List Char) :=
  match cs.dropWhile isSchemeChar with
  | ':' :: rest =>
    if cs.head?.any Char.isAlpha then
      some (String.ofList ((cs.takeWhile isSchemeChar).map Char.toLower), rest)
    else none
  | _ => none

/-- The reference up to its query, the query and the fragment. -/
def cutTail (cs : List Char) : List Char × Option (List Char) × Option (List Char) :=
  let (front, fragment) := Text.cut '#' cs
  let (front, query) := Text.cut '?' front
  (front, query, fragment)

def isSlash (c : Char) : Bool := c = '/' || c = '\\'

/-- The characters that end a segment. -/
def endsSegment (special : Bool) (c : Char) : Bool := c = '/' || (special && c = '\\')

/-! ## Hosts -/

/-- The host that a bracketed text holds. -/
def bracketed? (cs : List Char) : Option Host :=
  match cs with
  | '[' :: rest =>
    if rest.getLast? = some ']' then (pieces? rest.dropLast).map Host.ipv6 else none
  | _ => none

/-- The host of one of the web's own schemes. -/
def readHost (cs : List Char) : Except Fault Host :=
  if cs.head? = some '[' then
    match bracketed? cs with
    | some h => .ok h
    | none => .error .ipv6
  else
    match Domain.ascii? cs with
    | none => .error .domain
    | some [] => .error .emptyHost
    | some name =>
      if endsInNumber name then
        match looseAddress? name with
        | some n => .ok (.ipv4 n)
        | none => .error .ipv4
      else .ok (.domain (String.ofList name))

/-- The characters that the name of any other host may not hold. -/
def isHostMark (c : Char) : Bool :=
  c = '\x00' || "\t\n\r #/:<>?@[\\]^|".toList.contains c

/-- The host of any other scheme: a name that is kept as it is. -/
def readNamedHost (cs : List Char) : Except Fault Host :=
  if cs.head? = some '[' then
    match bracketed? cs with
    | some h => .ok h
    | none => .error .ipv6
  else if cs.any isHostMark then .error .domainCharacter
  else .ok (.domain (encode isControl cs))

/-- The characters of a host, up to the first colon outside brackets, and the rest. -/
def spanHost (inside : Bool) : List Char → List Char × List Char
  | [] => ([], [])
  | c :: cs =>
    if c = ':' && !inside then ([], c :: cs)
    else
      let (host, rest) := spanHost ((inside || c = '[') && c ≠ ']') cs
      (c :: host, rest)

/-- The port after a host; an empty one and the scheme's own count as none. -/
def readPort (scheme : String) (cs : List Char) : Except Fault (Option Nat) :=
  match cs with
  | ':' :: [] => .ok none
  | ':' :: digits =>
    match (Text.natOf? digits).filter (· ≤ Text.u16Max) with
    | some p => .ok (if defaultPort? scheme = some p then none else some p)
    | none => .error .port
  | _ => .ok none

/-- User, password, host and port. -/
structure Authority where
  username : String
  password : String
  host : Host
  port : Option Nat

/-- The authority that ends where a path, a query or a fragment begins. -/
def readAuthority (scheme : String) (cs : List Char) : Except Fault Authority := do
  let (user, hostPort) := match Text.cutLast? '@' cs with
    | some (user, rest) => (user, rest)
    | none => ([], cs)
  let (username, password) := Text.cut ':' user
  let (host, port) := spanHost false hostPort
  let named := !isSpecial scheme
  if host.isEmpty && (!named || cs.contains '@' || !port.isEmpty) then throw .emptyHost
  let host ← if named then readNamedHost host else readHost host
  return ⟨encode inUserSet username, encode inUserSet (password.getD []), host, ← readPort scheme port⟩

/-! ## Paths -/

def isDot (cs : List Char) : Bool := [".", "%2e"].contains (String.ofList (cs.map Char.toLower))

def isDoubleDot (cs : List Char) : Bool :=
  ["..", ".%2e", "%2e.", "%2e%2e"].contains (String.ofList (cs.map Char.toLower))

/-- The parts between the characters that end a segment. -/
def parts (special : Bool) : List Char → List (List Char)
  | [] => [[]]
  | c :: cs =>
    if endsSegment special c then [] :: parts special cs
    else match parts special cs with
      | [] => [[c]]
      | p :: ps => (c :: p) :: ps

/-- Segments with parts put behind them. A dot adds nothing and two dots take one away; where the
last part is one of these, the path ends in a slash. -/
def walk (names : List String) : List (List Char) → List String
  | [] => names
  | [p] =>
    if isDoubleDot p then names.dropLast ++ [""]
    else if isDot p then names ++ [""]
    else names ++ [encode inPathSet p]
  | p :: ps =>
    if isDoubleDot p then walk names.dropLast ps
    else if isDot p then walk names ps
    else walk (names ++ [encode inPathSet p]) ps

/-- The path from the root; a slash in front is not part of its first segment. -/
def readPath (scheme : String) (cs : List Char) : Path :=
  let special := isSpecial scheme
  match cs with
  | [] => .segments (if special then [""] else [])
  | c :: rest => .segments (walk [] (parts special (if endsSegment special c then rest else cs)))

/-! ## References -/

def readQuery (scheme : String) (q : List Char) : String :=
  encode (if isSpecial scheme then inSpecialQuerySet else inQuerySet) q

/-- A URL with the query and the fragment of a reference. -/
def withTail (u : Url) (query fragment : Option (List Char)) : Url :=
  { u with query := query.map (readQuery u.scheme), fragment := fragment.map (encode inFragmentSet) }

/-- The URL of what follows two slashes. -/
def readFromAuthority (scheme : String) (cs : List Char) : Except Fault Url := do
  let (front, query, fragment) := cutTail cs
  let ends := endsSegment (isSpecial scheme)
  let a ← readAuthority scheme (front.takeWhile (!ends ·))
  let path := readPath scheme (front.dropWhile (!ends ·))
  return withTail ⟨scheme, a.username, a.password, some a.host, a.port, path, none, none⟩
    query fragment

/-- A reference that has no scheme of its own, to a base with segments. -/
def readRelative (base : Url) (cs : List Char) : Except Fault Url :=
  let (front, query, fragment) := cutTail cs
  let special := isSpecial base.scheme
  match front with
  | [] =>
    match query, fragment with
    | none, none => .ok { base with fragment := none }
    | none, some f => .ok { base with fragment := some (encode inFragmentSet f) }
    | some _, _ => .ok (withTail base query fragment)
  | '/' :: '/' :: _ => readFromAuthority base.scheme (cs.drop 2)
  | c :: _ =>
    if isSlash c then
      if 2 ≤ (front.takeWhile isSlash).length then
        readFromAuthority base.scheme (cs.dropWhile isSlash)
      else
        let path := .segments (walk [] (parts special (front.drop 1)))
        .ok (withTail { base with path := path } query fragment)
    else
      let path := .segments (walk base.path.names.dropLast (parts special front))
      .ok (withTail { base with path := path } query fragment)

/-- A URL of files, whose host may be missing. A drive letter is no host. -/
def readFile (base? : Option Url) (cs : List Char) : Except Fault Url := do
  let (front, query, fragment) := cutTail cs
  let file (host : Host) (path : Path) : Url :=
    withTail ⟨"file", "", "", some host, none, path, none, none⟩ query fragment
  if (front.take 2).length = 2 && (front.take 2).all isSlash then
    let rest := front.drop 2
    let name := rest.takeWhile (!isSlash ·)
    let isDrive := match name with
      | [drive, mark] => drive.isAlpha && (mark = ':' || mark = '|')
      | _ => false
    if isDrive then return file (.domain "") (readPath "file" rest)
    let host ← if name.isEmpty then pure (.domain "") else readHost name
    let host := if host = .domain "localhost" then .domain "" else host
    return file host (readPath "file" (rest.dropWhile (!isSlash ·)))
  match base? with
  | some base => readRelative base cs
  | none => return file (.domain "") (readPath "file" front)

/-- What follows a scheme. A base of the same web scheme serves where there are not two slashes. -/
def readWithScheme (base? : Option Url) (scheme : String) (cs : List Char) : Except Fault Url :=
  if scheme = "file" then readFile (base?.filter (·.scheme = "file")) cs
  else if isSpecial scheme then
    let slashes := (cs.takeWhile isSlash).length
    match base?.filter fun base => base.scheme = scheme && slashes < 2 with
    | some base => readRelative base cs
    | none => readFromAuthority scheme (cs.drop slashes)
  else
    let (front, query, fragment) := cutTail cs
    let plain (path : Path) : Url :=
      withTail ⟨scheme, "", "", none, none, path, none, none⟩ query fragment
    match front with
    | '/' :: '/' :: _ => readFromAuthority scheme (cs.drop 2)
    | '/' :: _ => .ok (plain (readPath scheme front))
    | _ => .ok (plain (.bare (encode isControl front)))

/-- The URL that a text spells, as a reference to a base if there is one. -/
def read (base? : Option Url) (s : String) : Except Fault Url :=
  let cs := cleaned s
  match cutScheme? cs with
  | some (scheme, rest) => readWithScheme base? scheme rest
  | none =>
    match base? with
    | none => .error .relativeWithoutBase
    | some base =>
      match base.path, cs with
      | _, '#' :: f => .ok { base with fragment := some (encode inFragmentSet f) }
      | .bare _, _ => .error .relativeToBare
      | .segments _, _ =>
        if base.scheme = "file" then readFile (some base) cs else readRelative base cs

/-- The URL that a text spells by itself. -/
def parse (s : String) : Except Fault Url := read none s

/-- The URL that a reference names when it stands at a base. -/
def join (base : Url) (s : String) : Except Fault Url := read (some base) s

end Cadence.Url
