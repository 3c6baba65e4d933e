import Cadence.Json.Print
import Cadence.Service.Error
import Cadence.Text.Basic
import Cadence.Token.Base64
import Cadence.Token.Claims
import Cadence.Token.Sha256

/-!
# Tokens

A token is a header, claims and a signature, each in base 64, with dots between them. The signature
is the digest of all that stands before the last dot, under a secret.
-/

namespace Cadence.Token

/-! ## Issuing -/

def header : Json := .obj [("typ", .str "JWT"), ("alg", .str "HS256")]

def encodeText (s : String) : List Char := Base64.encode s.toUTF8.toList

def signature (secret : String) (message : List Char) : List UInt8 :=
  Sha256.keyed secret.toUTF8.toList (String.ofList message).toUTF8.toList

/-- The token of a header and claims under a secret. -/
def sign (secret : String) (claims : Claims) : String :=
  let message := encodeText header.text ++ '.' :: encodeText claims.toJson.text
  String.ofList (message ++ '.' :: Base64.encode (signature secret message))

/-- The claims of a token that is issued now and holds for some hours; none when its end is beyond
the range of instants. -/
def claims? (p : Principal) (kind : TokenKind) (hours : Int) (now : Instant) : Option Claims :=
  (now.addSeconds? (hours * 3600)).map fun expiry =>
    ⟨p, kind, now.unixSeconds, expiry.unixSeconds⟩

def issue? (p : Principal) (kind : TokenKind) (secret : String) (hours : Int) (now : Instant) :
    Option String :=
  (claims? p kind hours now).map (sign secret)

/-- An access token and a refresh token. -/
structure Pair where
  access : String
  refresh : String
  deriving DecidableEq, Repr

def issuePair? (p : Principal) (secret : String) (accessHours refreshHours : Int) (now : Instant) :
    Option Pair := do
  return ⟨← issue? p .access secret accessHours now, ← issue? p .refresh secret refreshHours now⟩

/-! ## Validation -/

/-- Why a token is refused. -/
inductive Fault
  | invalid
  | encoding
  | json
  | algorithm
  | signature
  | missingExpiry
  | expired
  | audience
  | kind (expected got : TokenKind)
  deriving DecidableEq, Repr

namespace Fault

def message : Fault → String
  | invalid => "Invalid token"
  | encoding => "Token validation failed: Base64 error"
  | json => "Token validation failed: JSON error"
  | algorithm => "Token validation failed: InvalidAlgorithm"
  | signature => "Invalid token signature"
  | missingExpiry => "Token validation failed: Missing required claim: exp"
  | expired => "Token has expired"
  | audience => "Token validation failed: InvalidAudience"
  | kind expected got => s!"Invalid token type: expected {expected.title}, got {got.title}"

def toError (f : Fault) : ServiceError := .unauthorized f.message

end Fault

/-- The seconds by which a token may have expired. -/
def leeway : Int := 60

/-- The names of the algorithms that are known; only the first one is accepted. -/
def algorithms : List String :=
  ["HS256", "HS384", "HS512", "ES256", "ES384", "RS256", "RS384", "RS512", "PS256", "PS384",
    "PS512", "EdDSA"]

/-- The members of a header that are texts or null. -/
def textMembers : List String :=
  ["typ", "cty", "jku", "kid", "x5u", "x5t", "x5t#S256", "enc", "zip", "url", "nonce"]

/-- The members of a header that are lists of texts or null. -/
def listMembers : List String := ["x5c", "crit"]

open Json in
/-- The algorithm of a header, if the header is in order: known members have the values of their
kind and are not repeated, and all others are texts. -/
def algorithm? (v : Json) : Option String := do
  match v with
  | .obj ms =>
    let known := "alg" :: "jwk" :: textMembers ++ listMembers
    let inOrder := ms.all fun (name, v) =>
      if name = "alg" then true
      else if textMembers.contains name then (nullable? asStr? v).isSome
      else if listMembers.contains name then (nullable? (asArray? asStr?) v).isSome
      else if name = "jwk" then
        match v with
        | .null => true
        | v => (asStr? (v.get "kty")).isSome
      else (asStr? v).isSome
    if !noneRepeated known ms || !inOrder then none
    (← asChoice? (← ms.lookup "alg")) |> fun a => if algorithms.contains a then some a else none
  | _ => none

def orFault {α : Type} (f : Fault) : Option α → Except Fault α
  | some a => .ok a
  | none => .error f

/-- The text of bytes, if they are one. -/
def textOf? (bytes : List UInt8) : Option String := String.fromUTF8? ⟨bytes.toArray⟩

/-- The claims of a token, at a time in seconds; with an expected kind no other is accepted. -/
def validate (now : Int) (secret : String) (expected : Option TokenKind) (token : String) :
    Except Fault Claims := do
  let (message, signed) ← orFault .invalid (Text.cutLast? '.' token.toList)
  let (head, payload) ← orFault .invalid (Text.cutLast? '.' message)
  let head ← orFault .encoding (Base64.decode? head)
  let algorithm ← orFault .json (((textOf? head).bind Json.read?).bind algorithm?)
  if algorithm ≠ "HS256" then throw .algorithm
  let signed ← orFault .encoding (Base64.decode? signed)
  if signed ≠ signature secret message then throw .signature
  let payload ← orFault .encoding (Base64.decode? payload)
  let (claims, hasAudience) ← orFault .json ((textOf? payload).bind Claims.read?)
  if claims.expiresAt < 0 then throw .missingExpiry
  if claims.expiresAt < now - leeway then throw .expired
  if hasAudience then throw .audience
  match expected with
  | some kind => if claims.kind = kind then return claims else throw (.kind kind claims.kind)
  | none => return claims

/-! ## Wire form -/

/-- The answer to a request for new tokens. -/
structure Response where
  pair : Pair
  /-- the seconds for which the access token holds -/
  expiresIn : Int
  deriving DecidableEq, Repr

/-- The answer with a pair whose access token holds for some hours. -/
def Response.bearer (pair : Pair) (accessHours : Int) : Response := ⟨pair, accessHours * 3600⟩

def Response.toJson (r : Response) : Json :=
  .obj [("access_token", .str r.pair.access), ("refresh_token", .str r.pair.refresh),
    ("token_type", .str "Bearer"), ("expires_in", .int r.expiresIn)]

end Cadence.Token
