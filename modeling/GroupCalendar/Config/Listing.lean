import GroupCalendar.Config.Settings
import GroupCalendar.Encoding.Base64

/-! # Settings for the listing site

Where the site is asked for events, and what is needed to get access to it.
-/

namespace GroupCalendar.Config

variable [HostNames]

/-- Access to the listing site. -/
structure ListingAccess where
  authUrl : String
  userId : String
  clientKey : String
  signingKeyId : String
  /-- A PEM text. -/
  privateKey : List UInt8
  deriving DecidableEq

namespace ListingAccess

def required : List String :=
  ["MEETUP_USER_ID", "MEETUP_CLIENT_KEY", "MEETUP_SIGNING_KEY_ID", "MEETUP_PRIVATE_KEY_BASE64"]

def authUrlKey : String := "MEETUP_AUTH_URL"

def defaultAuthUrl : String := "https://secure.meetup.com/oauth2/access"

def ofSettings (s : Settings) : Except ConfigError ListingAccess := do
  s.require required
  let _ ← s.url authUrlKey defaultAuthUrl
  let key := "MEETUP_PRIVATE_KEY_BASE64"
  let privateKey ← Settings.checked key (·.message) <|
    Base64.standard.decode (Text.Utf8.encodeChars (Text.trim (s.text key).toList))
  return ⟨s.getD authUrlKey defaultAuthUrl, s.text "MEETUP_USER_ID", s.text "MEETUP_CLIENT_KEY",
    s.text "MEETUP_SIGNING_KEY_ID", privateKey⟩

end ListingAccess

/-- The address of the listing site, as it is given. -/
structure ListingSite where
  apiUrl : String
  deriving DecidableEq

namespace ListingSite

def apiUrlKey : String := "MEETUP_API_URL"

def defaultApiUrl : String := "https://api.meetup.com/gql"

def ofSettings (s : Settings) : Except ConfigError ListingSite := do
  let _ ← s.url apiUrlKey defaultApiUrl
  return ⟨s.getD apiUrlKey defaultApiUrl⟩

end ListingSite

end GroupCalendar.Config
