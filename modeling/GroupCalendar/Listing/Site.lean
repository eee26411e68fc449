import GroupCalendar.Http.Post
import GroupCalendar.Program
import GroupCalendar.Time.Instant

/-! # Asking the listing site

What is needed to ask the site: the time, and a way to post messages to it. A message without a
reply did not reach the site.
-/

namespace GroupCalendar

namespace Site

inductive Request where
  | now
  | post (p : Http.Post)

abbrev Reply : Request → Type
  | .now => Instant
  | .post _ => Option Http.Answer

def signature : Signature := ⟨Request, Reply⟩

end Site

/-- A program that asks the site. -/
abbrev Site := Program Site.signature

namespace Site

def now : Site Instant :=
  .ask (S := signature) .now .done

/-- The answer to a message. -/
def send (p : Http.Post) : ExceptT Http.TransportError Site Http.Answer :=
  ExceptT.mk <| .ask (S := signature) (.post p) fun
    | some answer => .done (.ok answer)
    | none => .done (.error (.unreachable p.url))

/-- The answer of the site at an address. -/
def post [HostNames] (address contentType : String) (bearer : Option String) (body : List UInt8) :
    ExceptT Http.TransportError Site Http.Answer := do
  send (← ExceptT.mk (.done (Http.Post.make address contentType bearer body)))

end Site

end GroupCalendar
