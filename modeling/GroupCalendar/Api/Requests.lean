import GroupCalendar.Api.Events
import GroupCalendar.Http.MediaType
import GroupCalendar.Http.Message
import GroupCalendar.Json.Stream
import GroupCalendar.Url.Form

/-! # What requests say

Bodies with credentials and the query of a page. The message of the first fault is the detail of
the answer.
-/

namespace GroupCalendar.Api

section Bodies

open Json

structure Credentials where
  clientId : String := ""
  clientSecret : String := ""

def credentialFields : List (StreamField Credentials) :=
  [.defaulted "clientId" readString fun s c => { c with clientId := s },
    .defaulted "clientSecret" readString fun s c => { c with clientSecret := s }]

def refreshFields : List (StreamField String) :=
  [.defaulted "refreshToken" readString fun s _ => s]

/-- The message about a body that cannot be read. -/
def bodyMessage (body : List UInt8) (e : ReadError) : String :=
  match e.fault with
  | .mismatch _ =>
    s!"Failed to deserialize the JSON body into the target type: {e.message body}"
  | .malformed _ => s!"Failed to parse the request body as JSON: {e.message body}"

/-- Octets that a body may have. -/
def maxBodyOctets : Nat := 2097152

/-- The record of a request's body. -/
def readBody {ρ : Type} (name : String) (fields : List (StreamField ρ)) (initial : ρ)
    (r : Http.Request) : Except String ρ :=
  if ((r.header? "content-type").bind Http.MediaType.parse?).any (·.isJson) then
    if maxBodyOctets < r.body.length then
      .error "Failed to buffer the request body: length limit exceeded"
    else (readWhole fields name initial r.body).mapError (bodyMessage r.body)
  else .error "Expected request with \x60Content-Type: application/json\x60"

def readCredentials (r : Http.Request) : Except String Credentials := do
  let c ← readBody "AuthRequest" credentialFields {} r
  if c.clientId.isEmpty || c.clientSecret.isEmpty then
    throw "clientId and clientSecret are required"
  return c

def readRefreshToken (r : Http.Request) : Except String String := do
  let token ← readBody "RefreshRequest" refreshFields "" r
  if token.isEmpty then throw "refreshToken is required"
  return token

end Bodies

section Queries

/-- One pair of a query. Each known name may stand once only; other names are passed over. -/
def readPair (r : PageRequest) (pair : String × String) : Except String PageRequest :=
  let (name, value) := pair
  let once {α β : Type} (present : Option α) (x : Except String β) : Except String β :=
    if present.isSome then .error s!"duplicate field \x60{name}\x60"
    else x.mapError fun message => s!"{name}: {message}"
  let date := (readRequestedDate value).mapError (·.message)
  match name with
  | "before" => do return { r with before := some (← once r.before date) }
  | "after" => do return { r with after := some (← once r.after date) }
  | "cursor" => do return { r with cursor := some (← once r.cursor (.ok value)) }
  | "limit" => do
    let limit := (IntegerRange.i32.read value.toList).mapError (·.message)
    return { r with limit := some (← once r.limit limit) }
  | _ => .ok r

/-- The page that a query asks for. -/
def readQuery (query : List Char) : Except String PageRequest :=
  ((Form.decode (Text.Utf8.encodeChars query)).foldlM readPair {}).mapError fun message =>
    s!"Failed to deserialize query string: {message}"

/-- The query that asks for a page. -/
def queryPairs (r : PageRequest) : List (String × String) :=
  let pair (name : String) (value : Option String) : List (String × String) :=
    (value.map fun v => (name, v)).toList
  pair "cursor" r.cursor ++ pair "limit" (r.limit.map toString) ++
    pair "before" (r.before.map formatStoredDate) ++ pair "after" (r.after.map formatStoredDate)

end Queries

end GroupCalendar.Api
