import GroupCalendar.Url.Parser

/-! # Posting to other sites

Messages to the sites that the program asks, and why one may fail to get there. The name of a user
in an address is not part of what is asked for.
-/

namespace GroupCalendar.Http

inductive TransportError where
  /-- The address or a header has no valid form. -/
  | malformed
  /-- Nothing of this scheme can be asked. -/
  | unsupported (url : Url)
  | unreachable (url : Url)
  deriving DecidableEq, Repr

def TransportError.message : TransportError → String
  | .malformed => "builder error"
  | .unsupported url => s!"builder error for url ({url.toText})"
  | .unreachable url => s!"error sending request for url ({url.toText})"

/-- A message, with the token that its sender shows. -/
structure Post where
  url : Url
  contentType : String
  bearer : Option String := none
  body : List UInt8

namespace Post

/-- The type of answers that every message asks for. -/
def accept : String := "application/json"

def userAgent : String := "curl/8.7.1"

/-- No control character but the tab. -/
def fitsHeader (s : String) : Bool :=
  s.toList.all fun c => c = '\t' || (0x20 ≤ c.toNat && c.toNat ≠ 0x7F)

/-- The header that shows the token, as it arrives: without blanks at its end. -/
def authorization (p : Post) : Option String :=
  p.bearer.map fun token =>
    let text := ("Bearer " ++ token).toList.reverse.dropWhile fun c => c = ' ' || c = '\t'
    String.ofList text.reverse

/-- A message to the site at an address. -/
def make [HostNames] (address contentType : String) (bearer : Option String) (body : List UInt8) :
    Except TransportError Post := do
  let url ← (Url.parse address).mapError fun _ => .malformed
  if url.host.isNone then throw (.unsupported url)
  if !bearer.all fitsHeader then throw .malformed
  let url := { url with userInfo := [] }
  if url.scheme = "http".toList ∨ url.scheme = "https".toList then
    return ⟨url, contentType, bearer, body⟩
  else throw (.unsupported url)

end Post

structure Answer where
  status : Nat
  body : List UInt8

end GroupCalendar.Http
