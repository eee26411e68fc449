import GroupCalendar.GraphQl.Request
import GroupCalendar.Json.Parser

/-! # Proxies

A proxy takes a request as a JSON value and passes it on, unless its query is blank. The function
that the proxy runs in is called with the octets of that value and answers with octets.
-/

namespace GroupCalendar.GraphQl

variable {m : Type → Type} [Monad m]

inductive ProxyError where
  | invalidRequest (message : String)
  | query (error : GraphQlError)
  deriving DecidableEq, Repr

def ProxyError.message : ProxyError → String
  | .invalidRequest message => s!"不正なリクエスト: {message}"
  | .query error => error.message

/-- The request that a proxy passes on. -/
def forwarded (payload : Json) : Except ProxyError Request :=
  match Request.ofJson payload with
  | .error e => .error (.invalidRequest e.message)
  | .ok r => if r.isBlank then .error (.invalidRequest "query is empty") else .ok r

/-- The answer of a proxy that passes requests on to `execute`. -/
def proxy (execute : Request → ExceptT GraphQlError m Json) (payload : Json) :
    ExceptT ProxyError m Json :=
  match forwarded payload with
  | .error e => throw e
  | .ok r => ExceptT.adapt .query (execute r)

/-- What a function that was called has left behind. -/
structure Invocation where
  /-- The kind of failure with which the function ended. -/
  failure : Option String
  payload : List UInt8
  deriving DecidableEq

/-- The answer that a function has given. -/
def Invocation.answer (i : Invocation) : Except GraphQlError Json :=
  match i.failure with
  | some kind => .error (.function s!"{kind}: {Text.Utf8.decodeLossy i.payload}")
  | none => (Json.parse i.payload).mapError fun e => .decode e.message

/-- The answer to a request by a function that is called with it. -/
def viaFunction (invoke : List UInt8 → ExceptT GraphQlError m Invocation) (r : Request) :
    ExceptT GraphQlError m Json := do
  let i ← invoke r.toJson.encode
  ExceptT.mk (pure i.answer)

end GroupCalendar.GraphQl
