import GroupCalendar.Event.Basic
import GroupCalendar.GraphQl.Error
import GroupCalendar.Json.Decode

/-! # Pages of a listing

A group's events as the site lists them: one page holds events and says whether another page
follows and from where. Every field of an event but its id may be null. An answer may also hold
errors, which count when there is no data beside them.
-/

namespace GroupCalendar.Listing

inductive ListingError where
  | query (error : GraphQlError)
  | decode (message : String)
  | graphQl (message : String)
  | groupNotFound (group : String)
  deriving DecidableEq, Repr

def ListingError.message : ListingError → String
  | .query error => s!"GraphQLクエリの実行に失敗: {error.message}"
  | .decode message => s!"GraphQLレスポンスのデコードに失敗: {message}"
  | .graphQl message => s!"GraphQLエラー: {message}"
  | .groupNotFound group => s!"グループが見つかりません: {group}"

structure Page where
  endCursor : Option String := none
  hasNextPage : Bool := false
  events : List Event := []

/-- Groups are listed with their name and the name in their address. -/
structure Group where
  name : String := ""
  urlname : String := ""

section Fields

variable {ρ : Type}

/-- A text that null leaves empty. -/
def textOrNull (name : String) (set : String → ρ → ρ) : Json.Field ρ :=
  .optional name fun x r => return set ((← Json.decodeOption Json.decodeString x).getD "") r

def venueFields : List (Json.Field Venue) :=
  [textOrNull "name" fun s v => { v with name := s },
    textOrNull "address" fun s v => { v with address := s },
    textOrNull "city" fun s v => { v with city := s },
    textOrNull "state" fun s v => { v with state := s },
    textOrNull "postalCode" fun s v => { v with postalCode := s }]

def groupFields : List (Json.Field Group) :=
  [textOrNull "name" fun s g => { g with name := s },
    textOrNull "urlname" fun s g => { g with urlname := s }]

def hostFields : List (Json.Field Host) :=
  [textOrNull "name" fun s h => { h with name := s }]

def imageFields : List (Json.Field Image) :=
  [textOrNull "baseUrl" fun s i => { i with baseUrl := s },
    textOrNull "preview" fun s i => { i with preview := s }]

/-- The fields of a listed event. A date that cannot be read is left out. -/
def eventFields : List (Json.Field Event) :=
  [.mandatory "id" fun x e => return { e with id := ← Json.decodeString x },
    textOrNull "title" fun s e => { e with title := s },
    textOrNull "eventUrl" fun s e => { e with eventUrl := s },
    textOrNull "description" fun s e => { e with description := s },
    .optional "dateTime" fun x e => do
      let s ← Json.decodeOption Json.decodeString x
      return { e with dateTime := s.bind readListedDate? },
    textOrNull "duration" fun s e => { e with duration := s },
    .optional "venue" fun x e => do
      let v ← Json.decodeOption (Json.decodeRecord "VenueNode" venueFields {}) x
      return { e with venue := v },
    .optional "group" fun x e => do
      let g ← Json.decodeOption (Json.decodeRecord "GroupNode" groupFields {}) x
      let g := g.getD {}
      return { e with groupId := g.urlname, groupName := g.name },
    .optional "host" fun x e => do
      let h ← Json.decodeOption (Json.decodeRecord "HostNode" hostFields {}) x
      return { e with host := h },
    .optional "images" fun x e => do
      let is ← Json.decodeOption (Json.decodeList (Json.decodeRecord "ImageNode" imageFields {})) x
      return { e with images := is.getD [] }]

def edgeFields : List (Json.Field Event) :=
  [.mandatory "node" fun x _ => Json.decodeRecord "EventNode" eventFields {} x]

def pageInfoFields : List (Json.Field Page) :=
  [.optional "endCursor" fun x p => do
      return { p with endCursor := ← Json.decodeOption Json.decodeString x },
    .defaulted "hasNextPage" fun x p => return { p with hasNextPage := ← Json.decodeBool x }]

def pageFields : List (Json.Field Page) :=
  [.mandatory "pageInfo" fun x p => Json.decodeRecord "PageInfo" pageInfoFields p x,
    .defaulted "edges" fun x p => do
      let events ← Json.decodeList (Json.decodeRecord "EventEdge" edgeFields {}) x
      return { p with events := events }]

def groupEventsFields : List (Json.Field Page) :=
  [.mandatory "unifiedEvents" fun x p => Json.decodeRecord "UnifiedEvents" pageFields p x]

/-- The data of an answer: the page, unless the group is null. -/
def dataFields : List (Json.Field (Option Page)) :=
  [.optional "events" fun x _ =>
    Json.decodeOption (Json.decodeRecord "GroupEvents" groupEventsFields {}) x]

def errorFields : List (Json.Field String) :=
  [.defaulted "message" fun x _ => Json.decodeString x]

end Fields

structure Answer where
  data : Option (Option Page) := none
  errors : List String := []

def answerFields : List (Json.Field Answer) :=
  [.optional "data" fun x a => do
      return { a with
        data := ← Json.decodeOption (Json.decodeRecord "FutureEventsData" dataFields none) x },
    .defaulted "errors" fun x a => do
      let errors ← Json.decodeList (Json.decodeRecord "GraphQlErrorMessage" errorFields "") x
      return { a with errors := errors }]

/-- The page of an answer about a group. -/
def Page.ofAnswer (group : String) (x : Json) : Except ListingError Page :=
  match Json.decodeRecord "FutureEventsResponse" answerFields {} x with
  | .error e => .error (.decode e.message)
  | .ok { data := some (some page), .. } => .ok page
  | .ok { data := some none, .. } => .error (.groupNotFound group)
  | .ok { data := none, errors := [] } => .error (.decode "data is missing")
  | .ok { data := none, errors } => .error (.graphQl ("; ".intercalate errors))

end GroupCalendar.Listing
