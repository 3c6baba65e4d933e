import Cadence.Url.Address

/-!
# URLs

A URL in its parts, and its text. The path is a list of segments, or a bare text where a URL has no
place for an authority, as `mailto:` has.
-/

namespace Cadence

namespace Url

inductive Host
  | domain (name : String)
  /-- a four-part address as one number -/
  | ipv4 (address : Nat)
  /-- the eight pieces of the long form -/
  | ipv6 (pieces : List Nat)
  deriving DecidableEq, Repr

inductive Path
  | segments (names : List String)
  | bare (text : String)
  deriving DecidableEq, Repr

end Url

structure Url where
  scheme : String
  username : String
  password : String
  host : Option Url.Host
  /-- none for the scheme's own port -/
  port : Option Nat
  path : Url.Path
  query : Option String
  fragment : Option String
  deriving DecidableEq, Repr

namespace Url

/-- The schemes of the web, which always have an authority. -/
def isSpecial (scheme : String) : Bool :=
  ["http", "https", "ws", "wss", "ftp", "file"].contains scheme

def defaultPort? : String → Option Nat
  | "http" | "ws" => some 80
  | "https" | "wss" => some 443
  | "ftp" => some 21
  | _ => none

/-- Who is talked to: scheme, host and port. -/
def origin (u : Url) : String × Option Host × Option Nat := (u.scheme, u.host, u.port)

/-- The segments of a path; a bare text has none. -/
def Path.names : Path → List String
  | .segments names => names
  | .bare _ => []

def Path.text : Path → String
  | .segments names => String.join (names.map ("/" ++ ·))
  | .bare text => text

/-- What is asked for on the host: path and query. -/
def target (u : Url) : String :=
  u.path.text ++ match u.query with
    | some q => "?" ++ q
    | none => ""

/-! ## Text -/

/-- The length of the run of zeros at the front. -/
def zeroRun (ps : List Nat) : Nat := (ps.takeWhile (· = 0)).length

/-- The place and length of the first longest run of zeros, if it has two or more. -/
def longestRun? (ps : List Nat) : Option (Nat × Nat) :=
  let runs := (List.range ps.length).map fun i => (i, zeroRun (ps.drop i))
  (runs.foldl (fun best r => if best.2 < r.2 then r else best) (0, 1)) |> fun best =>
    if 1 < best.2 then some best else none

def pieceText (n : Nat) : String := String.ofList (Nat.toDigits 16 n)

def piecesText (ps : List Nat) : String :=
  let joined (ps : List Nat) := ":".intercalate (ps.map pieceText)
  match longestRun? ps with
  | some (i, n) => joined (ps.take i) ++ "::" ++ joined (ps.drop (i + n))
  | none => joined ps

def Host.text : Host → String
  | .domain name => name
  | .ipv4 n =>
    ".".intercalate ([n >>> 24, (n >>> 16) % 256, (n >>> 8) % 256, n % 256].map toString)
  | .ipv6 ps => "[" ++ piecesText ps ++ "]"

/-- The user and the password in front of a host. -/
def credentials (u : Url) : String :=
  if u.username.isEmpty && u.password.isEmpty then ""
  else if u.password.isEmpty then u.username ++ "@"
  else u.username ++ ":" ++ u.password ++ "@"

def text (u : Url) : String :=
  let authority := match u.host with
    | some h => "//" ++ u.credentials ++ h.text ++ match u.port with
      | some p => ":" ++ toString p
      | none => ""
    | none => ""
  u.scheme ++ ":" ++ authority ++ u.target ++ match u.fragment with
    | some f => "#" ++ f
    | none => ""

end Url

end Cadence
