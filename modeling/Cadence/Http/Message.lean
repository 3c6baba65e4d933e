import Cadence.Json.Print
import Cadence.Text.Basic

/-!
# HTTP messages

Requests and responses with the parts that the service looks at, and the registered statuses. Names
of headers are in lower case.
-/

namespace Cadence.Http

/-- A header: its name in lower case, and its value. -/
abbrev Header := String × String

structure Request where
  method : String
  /-- path and query, as they were sent -/
  target : String
  headers : List Header
  body : String
  deriving DecidableEq, Repr

structure Response where
  status : Nat
  headers : List Header
  body : String
  deriving DecidableEq, Repr

/-- The characters that a header shows as text: the printable ones of ASCII, and the tab. -/
def isVisible (c : Char) : Bool := c = '\t' || (32 ≤ c.toNat && c.toNat ≤ 126)

/-- The first value of a header, if it is visible text. -/
def visible? (headers : List Header) (name : String) : Option String :=
  (headers.lookup name).filter fun v => v.toList.all isVisible

def jsonType : String := "application/json"

namespace Request

/-- The path, without query and fragment. -/
def path (r : Request) : String :=
  String.ofList (r.target.toList.takeWhile fun c => c ≠ '?' && c ≠ '#')

end Request

namespace Response

/-- A status and nothing else. -/
def ofStatus (status : Nat) : Response := ⟨status, [], ""⟩

/-- A status and a JSON text. -/
def json (status : Nat) (v : Json) : Response := ⟨status, [("content-type", jsonType)], v.text⟩

def isError (r : Response) : Bool := 400 ≤ r.status && r.status ≤ 599

/-- The response with a header put in place of any of its name. -/
def withHeader (r : Response) (name value : String) : Response :=
  { r with headers := r.headers.filter (·.1 != name) ++ [(name, value)] }

end Response

/-! ## Statuses -/

/-- The registered statuses and their reasons. -/
def reasons : List (Nat × String) :=
  [(100, "Continue"), (101, "Switching Protocols"), (102, "Processing"), (103, "Early Hints"),
    (200, "OK"), (201, "Created"), (202, "Accepted"), (203, "Non Authoritative Information"),
    (204, "No Content"), (205, "Reset Content"), (206, "Partial Content"), (207, "Multi-Status"),
    (208, "Already Reported"), (226, "IM Used"), (300, "Multiple Choices"),
    (301, "Moved Permanently"), (302, "Found"), (303, "See Other"), (304, "Not Modified"),
    (305, "Use Proxy"), (307, "Temporary Redirect"), (308, "Permanent Redirect"),
    (400, "Bad Request"), (401, "Unauthorized"), (402, "Payment Required"), (403, "Forbidden"),
    (404, "Not Found"), (405, "Method Not Allowed"), (406, "Not Acceptable"),
    (407, "Proxy Authentication Required"), (408, "Request Timeout"), (409, "Conflict"),
    (410, "Gone"), (411, "Length Required"), (412, "Precondition Failed"),
    (413, "Payload Too Large"), (414, "URI Too Long"), (415, "Unsupported Media Type"),
    (416, "Range Not Satisfiable"), (417, "Expectation Failed"), (418, "I'm a teapot"),
    (421, "Misdirected Request"), (422, "Unprocessable Entity"), (423, "Locked"),
    (424, "Failed Dependency"), (425, "Too Early"), (426, "Upgrade Required"),
    (428, "Precondition Required"), (429, "Too Many Requests"),
    (431, "Request Header Fields Too Large"), (451, "Unavailable For Legal Reasons"),
    (500, "Internal Server Error"), (501, "Not Implemented"), (502, "Bad Gateway"),
    (503, "Service Unavailable"), (504, "Gateway Timeout"), (505, "HTTP Version Not Supported"),
    (506, "Variant Also Negotiates"), (507, "Insufficient Storage"), (508, "Loop Detected"),
    (510, "Not Extended"), (511, "Network Authentication Required")]

/-- A status with its reason. -/
def statusLine (status : Nat) : String :=
  toString status ++ " " ++ (reasons.lookup status).getD "<unknown status code>"

def isSuccess (status : Nat) : Bool := 200 ≤ status && status ≤ 299

end Cadence.Http
