import GroupCalendar.GraphQl.Error
import GroupCalendar.Json.Stream
import GroupCalendar.Listing.Assertion
import GroupCalendar.Listing.Site
import GroupCalendar.Url.Form

/-! # Access tokens

An access token is got from the listing site in exchange for an assertion and kept while more than
a margin of its time is left. When no new token can be had, the old one stays where it is.
-/

namespace GroupCalendar.Listing

structure AccessToken where
  text : String
  expires : Instant
  deriving DecidableEq

/-- Seconds of a token's time that are not made use of. -/
def marginSeconds : Int := 30

/-- Less than the margin is left of a token's time, if the calendar reaches so far back. -/
def AccessToken.isExpiring? (t : AccessToken) (now : Instant) : Option Bool :=
  (t.expires.addSeconds? (-marginSeconds)).map (·.before now)

/-- What the site grants: a token and the seconds it is good for. -/
structure Grant where
  token : String := ""
  seconds : Int := 0

namespace Grant

def fields : List (Json.StreamField Grant) :=
  [.mandatory "access_token" Json.readString fun s g => { g with token := s },
    .mandatory "expires_in" Json.readInteger fun n g => { g with seconds := n },
    .defaulted "token_type" (Json.readOption Json.readString) fun _ g => g,
    .defaulted "refresh_token" (Json.readOption Json.readString) fun _ g => g]

/-- The grant in an answer of the site. -/
def ofAnswer (a : Http.Answer) : Except TokenFetchError Grant :=
  if a.status ≠ 200 then .error (.invalidStatus a.status)
  else
    (Json.readWhole fields "TokenResponse" {} a.body).mapError fun _ =>
      .decode "error decoding response body"

/-- The token that is granted at an instant. -/
def toToken (g : Grant) (now : Instant) : Except TokenFetchError AccessToken :=
  match now.addSeconds? g.seconds with
  | some expires => .ok ⟨g.token, expires⟩
  | none => .error (.decode s!"expires_in out of range: {g.seconds}")

end Grant

/-- The form in which an assertion is sent. -/
def grantForm (assertion : String) : List (String × String) :=
  [("grant_type", "urn:ietf:params:oauth:grant-type:jwt-bearer"), ("assertion", assertion)]

def formType : String := "application/x-www-form-urlencoded"

/-- A value without any request. -/
def known {ε α : Type} (x : Except ε α) : ExceptT ε Site α := ExceptT.mk (.done x)

variable [HostNames]

/-- A new token from the site. -/
def fetchToken (a : Config.ListingAccess) : ExceptT TokenFetchError Site AccessToken := do
  match Assertion.expiry? (← Site.now) with
  | none => ExceptT.mk .broken
  | some expires =>
    let assertion ← known ((Assertion.sign a expires).mapError fun e => .signing e.message)
    let form := Text.Utf8.encodeChars (Form.encode (grantForm assertion))
    let answer ← ExceptT.adapt (fun e => .transport e.message) (Site.post a.authUrl formType none form)
    let grant ← known (Grant.ofAnswer answer)
    known (grant.toToken (← Site.now))

/-- The token kept so far, or a new one when there is none or when it is expiring. -/
def obtainToken (a : Config.ListingAccess) (kept : Option AccessToken) :
    ExceptT TokenFetchError Site AccessToken := do
  match kept with
  | none => fetchToken a
  | some token =>
    match token.isExpiring? (← Site.now) with
    | some false => return token
    | some true => fetchToken a
    | none => ExceptT.mk .broken

end GroupCalendar.Listing
