import GroupCalendar.GraphQl.Request
import GroupCalendar.Json.Parser
import GroupCalendar.Listing.AccessToken
import GroupCalendar.Service

/-! # Clients of the listing site

A client sends GraphQL requests to the site and shows the access token that it keeps.
-/

namespace GroupCalendar.Listing

variable [HostNames]

/-- Requests to the site by one who keeps an access token between them. -/
abbrev Session := StateT (Option AccessToken) Site

/-- The access token, a new one if need be. -/
def accessToken (a : Config.ListingAccess) : ExceptT TokenFetchError Session String :=
  ExceptT.mk fun kept => do
    match ← (obtainToken a kept).run with
    | .ok token => return (.ok token.text, some token)
    | .error e => return (.error e, kept)

structure Client where
  access : Config.ListingAccess
  site : Config.ListingSite

namespace Client

/-- What an answer of the site says. -/
def read (a : Http.Answer) : Except GraphQlError Json :=
  if a.status ≠ 200 then .error (.http a.status (Text.Utf8.decodeLossy a.body))
  else (Json.parse a.body).mapError fun _ => .decode "error decoding response body"

/-- The answer of the site to a request. -/
def query (c : Client) (r : GraphQl.Request) : ExceptT GraphQlError Session Json := do
  if r.isBlank then throw .emptyQuery
  let token ← ExceptT.adapt .auth (accessToken c.access)
  let answer ← ExceptT.adapt (fun e => .network e.message) <| ExceptT.mk <| StateT.lift
    (Site.post c.site.apiUrl "application/json" (some token) r.toJson.encode).run
  ExceptT.mk (pure (read answer))

/-- The services as far as a listing needs them, which is without any store. -/
def answer (c : Client) : (r : Service.Request) → Session (Service.Reply r)
  | .graphQl query arguments => some <$> (c.query ⟨query, arguments⟩).run
  | .wait _ => pure ()
  | .store _ => StateT.lift .broken

end Client

end GroupCalendar.Listing
