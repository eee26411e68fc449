import GroupCalendar.Listing.Page
import GroupCalendar.Service

/-! # Walking a listing

Pages are requested one after the other until an event is dated after a limit, or the listing says
that no page follows. All events of the pages requested are returned, also those after the limit.
-/

namespace GroupCalendar.Listing

/-- Number of events of a page. -/
def pageSize : Int := 20

/-- The query for a page of the coming events of a group. -/
def pageQuery : String := "
query ($urlname: String!, $itemsNum: Int!, $cursor: String) \x7b
  events: groupByUrlname(urlname: $urlname) \x7b
    unifiedEvents(input: \x7b first: $itemsNum, after: $cursor \x7d) \x7b
      count
      pageInfo \x7b
        endCursor
        hasNextPage
      \x7d
      edges \x7b
        node \x7b
          id
          title
          eventUrl
          description
          dateTime
          duration
          venue \x7b
            name
            address
            city
            state
            postalCode
          \x7d
          group \x7b
            name
            urlname
          \x7d
          host \x7b
            name
          \x7d
          images \x7b
            baseUrl
            preview
          \x7d
        \x7d
      \x7d
    \x7d
  \x7d
\x7d
"

/-- The variables of the query for the page at a cursor. -/
def pageVariables (group : String) (cursor : Option String) : Json :=
  .object [("cursor", Json.ofOption cursor), ("itemsNum", .integer pageSize),
    ("urlname", .string group)]

def fetchPage (group : String) (cursor : Option String) : Task ListingError Page := do
  let x ← Task.mapError .query
    (Task.graphQl pageQuery (pageVariables group cursor))
  Task.ofExcept (Page.ofAnswer group x)

/-- An event is dated after an instant. -/
def Event.isAfter (limit : Instant) (e : Event) : Bool :=
  e.dateTime.any limit.before

/-- The cursor of the page to request next, if there is one. -/
def Page.next? (p : Page) : Option String :=
  if p.hasNextPage then p.endCursor.filter fun c => !c.isEmpty else none

/-- The events from the page at a cursor on, in at most so many pages. -/
def eventsFrom (group : String) (limit : Instant) : Nat → Option String →
    Task ListingError (List Event)
  | 0, _ => Task.exhausted
  | pages + 1, cursor => do
    let page ← fetchPage group cursor
    if page.events.any (Event.isAfter limit) then return page.events
    match page.next? with
    | none => return page.events
    | some next => return page.events ++ (← eventsFrom group limit pages (some next))

/-- The events of a group up to the first page with one dated after a limit. -/
def eventsUntil (pages : Nat) (group : String) (limit : Instant) : Task ListingError (List Event) :=
  eventsFrom group limit pages none

end GroupCalendar.Listing
