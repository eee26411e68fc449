import GroupCalendar.Access.Credentials
import GroupCalendar.Config.Settings
import GroupCalendar.Event.Catalogue

/-! # Settings of the API -/

namespace GroupCalendar.Config

structure Api where
  events : String
  index : String
  authority : Access.Authority
  appUrl : Url
  port : Int

namespace Api

/-- The tables of events; nothing is archived through the API. -/
def catalogue (c : Api) : Catalogue :=
  ⟨c.events, c.events, c.index⟩

def required : List String :=
  ["EVENTS_TABLE_NAME", "GROUP_ID_DATE_TIME_INDEX_NAME", "API_USERS_TABLE_NAME", "JWT_SECRET"]

def defaultIssuer : String := "meetup-events-api"

def defaultUrl : String := "http://localhost:8080"

def defaultPort : Int := 8080

def ofSettings [HostNames] (s : Settings) : Except ConfigError Api := do
  s.require required
  let appUrl ← s.url "APP_URL" defaultUrl
  let port ← s.number .u16 "PORT" defaultPort
  let tokens : Access.Tokens :=
    ⟨Text.Utf8.encode (s.text "JWT_SECRET"), s.getD "JWT_ISSUER" defaultIssuer⟩
  return ⟨s.text "EVENTS_TABLE_NAME", s.text "GROUP_ID_DATE_TIME_INDEX_NAME",
    ⟨s.text "API_USERS_TABLE_NAME", tokens⟩, appUrl, port⟩

end Api

end GroupCalendar.Config
