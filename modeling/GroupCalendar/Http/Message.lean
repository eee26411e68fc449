import GroupCalendar.Json.Printer
import GroupCalendar.Text.Split

/-! # Requests and responses

Names of headers are compared without regard to case, and of several headers with one name the
first counts. The target of a request is a path with a query, or a whole address of which only
these two are looked at.
-/

namespace GroupCalendar.Http

structure Request where
  method : String
  target : String
  headers : List (String × String) := []
  body : List UInt8 := []

inductive Body where
  | empty
  | text (s : String)
  | json (x : Json)

inductive Status where
  | ok
  | badRequest
  | unauthorized
  | notFound
  | methodNotAllowed
  | internalError
  deriving DecidableEq, Repr

namespace Status

def code : Status → Nat
  | .ok => 200
  | .badRequest => 400
  | .unauthorized => 401
  | .notFound => 404
  | .methodNotAllowed => 405
  | .internalError => 500

def title : Status → String
  | .ok => "OK"
  | .badRequest => "Bad Request"
  | .unauthorized => "Unauthorized"
  | .notFound => "Not Found"
  | .methodNotAllowed => "Method Not Allowed"
  | .internalError => "Internal Server Error"

end Status

structure Response where
  status : Status
  contentType : Option String := none
  body : Body := .empty
  /-- The methods that the path has, told to a request with another one. -/
  allow : Option String := none

namespace Response

def json (x : Json) : Response :=
  { status := .ok, contentType := some "application/json", body := .json x }

def text (status : Status) (s : String) : Response :=
  { status, contentType := some "text/plain; charset=utf-8", body := .text s }

/-- The details of a problem, without anything that the status does not say unless it is given. -/
def problem (status : Status) (detail : Option String := none) : Response :=
  let described := match detail with
    | some text => [("detail", .string text)]
    | none => []
  { status
    contentType := some "application/problem+json"
    body := .json <| .object <| described ++
      [("status", .integer status.code), ("title", .string status.title),
        ("type", .string "about:blank")] }

end Response

namespace Request

def sameName (name other : String) : Bool :=
  name.toList.map Char.toLower = other.toList.map Char.toLower

/-- Characters that a header may show as text. -/
def isHeaderText (c : Char) : Bool :=
  c = '\t' || (0x20 ≤ c.toNat && c.toNat < 0x7F)

/-- The text of a header. -/
def header? (r : Request) (name : String) : Option String :=
  match r.headers.find? fun h => sameName h.1 name with
  | some (_, value) => if value.toList.all isHeaderText then some value else none
  | none => none

/-- The target from its path on. -/
def fromPath : List Char → List Char
  | ':' :: '/' :: '/' :: rest =>
    match rest.dropWhile fun c => c ≠ '/' && c ≠ '?' with
    | '/' :: path => '/' :: path
    | query => '/' :: query
  | _ :: rest => fromPath rest
  | [] => ['/']

/-- Path and query of the target; what follows a number sign does not belong to them. -/
def pathAndQuery (r : Request) : List Char × List Char :=
  let target := r.target.toList.takeWhile (· ≠ '#')
  let target := if target.head? = some '/' then target else fromPath target
  (Text.cutAt '?' target).getD (target, [])

/-- The segments of the path, as they are written. -/
def segments (r : Request) : List (List Char) :=
  (Text.splitAt '/' r.pathAndQuery.1).drop 1

def query (r : Request) : List Char :=
  r.pathAndQuery.2

end Request

end GroupCalendar.Http
