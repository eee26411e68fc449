import GroupCalendar.Config.Listing
import GroupCalendar.Crypto.SignedToken
import GroupCalendar.Crypto.SigningKey
import GroupCalendar.Time.Instant

/-! # Assertions

Whoever wants access to the listing site asserts who it is in a token signed with its RSA key. The
assertion is good for ten minutes.
-/

namespace GroupCalendar.Assertion

def minutes : Int := 10

/-- The site that an assertion is made for. -/
def audience : String := "api.meetup.com"

/-- When an assertion made now ends, if there is such an instant. -/
def expiry? (now : Instant) : Option Instant :=
  now.addSeconds? (minutes * 60)

def header (a : Config.ListingAccess) : List (String × Json) :=
  [("typ", .string "JWT"), ("alg", .string "RS256"), ("kid", .string a.signingKeyId)]

def claims (a : Config.ListingAccess) (expires : Instant) : List (String × Json) :=
  [("iss", .string a.clientKey), ("sub", .string a.userId), ("aud", .array [.string audience]),
    ("exp", .integer expires.seconds)]

/-- The signed assertion of who asks. -/
def sign (a : Config.ListingAccess) (expires : Instant) : Except SigningError String := do
  let key ← SigningKey.read a.privateKey
  let message := SignedToken.message (header a) (claims a expires)
  match key.sign? (SignedToken.octets message) with
  | some signature => return SignedToken.join message signature
  | none => throw .failed

end GroupCalendar.Assertion
