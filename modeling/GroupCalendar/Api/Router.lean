import GroupCalendar.Api.Requests
import GroupCalendar.Api.View
import GroupCalendar.Config.Api

/-! # The API

Every request gets a response, after some requests to the store. Events are shown only to clients
with an access token, and before the token has been checked nothing is looked up.
-/

namespace GroupCalendar.Api

open Http

/-- What a path leads to. Parts of the path are as they are written. -/
inductive Endpoint where
  | health
  | authenticate
  | refresh
  | events (group : List Char)
  | nextEvent (group : List Char)
  | event (group id : List Char)
  deriving DecidableEq, Repr

namespace Endpoint

def ofSegments? (segments : List (List Char)) : Option Endpoint :=
  match segments.map String.ofList with
  | ["health"] => some .health
  | ["v1", "auth"] => some .authenticate
  | ["v1", "auth", "refresh"] => some .refresh
  | ["v1", "groups", group, "events"] => some (.events group.toList)
  | ["v1", "groups", group, "events", "next"] => some (.nextEvent group.toList)
  | ["v1", "groups", group, "events", id] =>
    if id.isEmpty then none else some (.event group.toList id.toList)
  | _ => none

/-- Only clients with an access token get there. -/
def isProtected : Endpoint → Bool
  | .health | .authenticate | .refresh => false
  | _ => true

def isPost : Endpoint → Bool
  | .authenticate | .refresh => true
  | _ => false

def accepts (e : Endpoint) (method : String) : Bool :=
  if e.isPost then method = "POST" else method = "GET" || method = "HEAD"

def allow (e : Endpoint) : String :=
  if e.isPost then "POST" else "GET,HEAD"

end Endpoint

/-- The token behind the word `bearer`. -/
def bearerToken? (r : Request) : Option String := do
  match Text.words (← r.header? "authorization").toList with
  | [scheme, token] =>
    if scheme.map Char.toLower = "bearer".toList then some (String.ofList token) else none
  | _ => none

/-- The request carries a valid access token. -/
def authorized (c : Config.Api) (now : Instant) (r : Request) : Bool :=
  match bearerToken? r with
  | none => false
  | some token => (c.authority.tokens.validate now .access token).toOption.isSome

/-- A task that ends with a response in any case. -/
abbrev Answering := Task Response

def badRequest (detail : String) : Response :=
  .problem .badRequest detail

def ofEventsError (e : EventsError) : Response :=
  match e with
  | .invalidCursor | .invalidLimit => badRequest e.message
  | .store _ | .decode _ => .problem .internalError

def ofCredentialError : Access.CredentialError → Response
  | .invalidCredentials => .problem .unauthorized
  | .store _ => .problem .internalError

def tokensJson (p : Access.TokenPair) : Json :=
  .object [("accessToken", .string p.access),
    ("accessTokenExpiresAt", .string p.accessExpires.toText),
    ("refreshToken", .string p.refresh),
    ("refreshTokenExpiresAt", .string p.refreshExpires.toText)]

/-- A part of the path without its encodings. -/
def pathText (name : String) (part : List Char) : Except String String :=
  match Text.Utf8.decode? (Percent.decode part) with
  | some s => .ok s
  | none => .error s!"Invalid URL: Invalid UTF-8 in \x60{name}\x60"

/-- A part of the path where a fault is told in plain text. -/
def plainPathText (name : String) (part : List Char) : Answering String :=
  Task.ofExcept ((pathText name part).mapError (.text .badRequest))

/-- The address of the page that follows. -/
def nextPageUrl (c : Config.Api) (group : String) (next : PageRequest) : Option String :=
  (c.appUrl.below? ["v1", "groups", group, "events"] (queryPairs next)).map (·.toText)

def pageJson (c : Config.Api) (group : String) (p : EventsPage) : Json :=
  .object [("items", .array (p.events.map View.event)),
    ("nextPageUrl", .ofOption (p.next.bind (nextPageUrl c group)))]

def eventResponse (e : Option Event) : Answering Response :=
  match e with
  | some e => pure (.json (View.event e))
  | none => throw (.problem .notFound)

/-- What an endpoint answers to a request that may have its answer. -/
def handle (c : Config.Api) (now : Instant) (r : Request) : Endpoint → Answering Response
  | .health => pure (.json (.object [("status", .string "ok")]))
  | .authenticate => do
    let q ← Task.ofExcept ((readCredentials r).mapError badRequest)
    let pair ← Task.mapError ofCredentialError
      (c.authority.authenticate now q.clientId q.clientSecret)
    return .json (tokensJson pair)
  | .refresh => do
    let token ← Task.ofExcept ((readRefreshToken r).mapError badRequest)
    let pair ← Task.mapError ofCredentialError (c.authority.refresh now token)
    return .json (tokensJson pair)
  | .events group => do
    let group ← Task.ofExcept ((pathText "group_id" group).mapError badRequest)
    let query ← Task.ofExcept ((readQuery r.query).mapError badRequest)
    let page ← Task.mapError ofEventsError (c.catalogue.page now group query)
    return .json (pageJson c group page)
  | .nextEvent group => do
    let group ← plainPathText "group_id" group
    eventResponse (← Task.mapError ofEventsError (c.catalogue.nextEvent now group))
  | .event group id => do
    let group ← plainPathText "group_id" group
    let id ← plainPathText "event_id" id
    eventResponse (← Task.mapError ofEventsError (c.catalogue.eventById group id))

/-- The answer of a task, whether it went well or not. -/
def conclude (t : Answering Response) : Program Service.signature Response :=
  t.run.bind fun
    | .ok response => .done response
    | .error response => .done response

/-- The answer of an endpoint to any request for its path. -/
def Endpoint.respond (c : Config.Api) (now : Instant) (r : Request) (e : Endpoint) :
    Program Service.signature Response :=
  let accepted := e.accepts r.method
  let allow := if accepted then none else some e.allow
  if e.isProtected && !authorized c now r then
    .done { Response.problem .unauthorized with allow }
  else if accepted then conclude (handle c now r e)
  else .done { status := .methodNotAllowed, allow }

/-- The response without its body where only the head was asked for. -/
def forMethod (method : String) (response : Response) : Response :=
  if method = "HEAD" then { response with body := .empty } else response

/-- The answer to a request. -/
def respond (c : Config.Api) (now : Instant) (r : Request) : Program Service.signature Response :=
  let answer : Program Service.signature Response :=
    match Endpoint.ofSegments? r.segments with
    | none => .done (.problem .notFound)
    | some e => e.respond c now r
  answer.bind fun response => .done (forMethod r.method response)

end GroupCalendar.Api
