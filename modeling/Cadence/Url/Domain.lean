import Cadence.Text.Basic
import Cadence.Url.Percent

/-!
# Domain names

Names of hosts in their ASCII form. A name in plain ASCII is taken in lower case. What becomes of
other names is for the rules of international names to say, and these are a parameter.
-/

namespace Cadence

/-- The rules for names of hosts with letters beyond ASCII or with labels in Punycode. -/
class HostNames where
  /-- the ASCII form of such a name, if it has one -/
  ascii? : List Char → Option (List Char)

/-- The rules that know plain names only. -/
@[reducible]
def HostNames.plain : HostNames := ⟨fun _ => none⟩

namespace Url.Domain

/-- The characters of ASCII that no name may hold. -/
def isForbidden (c : Char) : Bool :=
  c.toNat ≤ 32 || c.toNat = 127 || "#%/:<>?@[\\]^|".toList.contains c

def codeMark : List Char := "xn--".toList

/-- A name in ASCII without labels in Punycode. -/
def isPlain (name : List Char) : Bool :=
  name.all (·.toNat < 128) &&
    (Text.splitOn '.' (name.map Char.toLower)).all fun label => !codeMark.isPrefixOf label

/-- The ASCII form of a name, which may have percent encodings. -/
def ascii? [HostNames] (cs : List Char) : Option (List Char) :=
  match String.fromUTF8? ⟨(decode cs).toArray⟩ with
  | none => none
  | some name =>
    if name.toList.any isForbidden then none
    else if isPlain name.toList then some (name.toList.map Char.toLower)
    else HostNames.ascii? name.toList

end Url.Domain

end Cadence
