import GroupCalendar.Api.Cursor

/-! # Events of a group

One page of a group's events in a range of dates, its next event, and one of its events by id.
Without a range the coming events are shown.
-/

namespace GroupCalendar

/-- What a request asks of a page. -/
structure PageRequest where
  before : Option Instant := none
  after : Option Instant := none
  cursor : Option String := none
  limit : Option Int := none
  deriving DecidableEq

/-- Events and the request for the page that follows. -/
structure EventsPage where
  events : List Event
  next : Option PageRequest

namespace Catalogue

/-- The condition on the date of an event. -/
def condition (now : Instant) (r : PageRequest) : Store.Condition :=
  match r.after, r.before with
  | some after, some before => .between (formatStoredDate after) (formatStoredDate before)
  | some after, none => .after (formatStoredDate after)
  | none, some before => .before (formatStoredDate before)
  | none, none => .after (formatStoredDate now)

def decodeEvent (item : Item) : Except EventsError Event :=
  (Event.ofItem item).mapError fun e => .decode e.message

/-- The key from which a page starts; an empty cursor stands for none. -/
def startKey (r : PageRequest) : Except EventsError (Option Item) :=
  match r.cursor with
  | some c => if c.isEmpty then .ok none else some <$> Cursor.decode c
  | none => .ok none

/-- The query of a page and its start. -/
def pageQuery (c : Catalogue) (now : Instant) (group : String) (r : PageRequest) :
    Except EventsError (Store.Query × Option Item) := do
  if r.limit.any (· < 1) then throw .invalidLimit
  let start ← startKey r
  return ({ c.rangeQuery group (condition now r) with limit := r.limit }, start)

/-- The page of a store's answer. -/
def toPage (r : PageRequest) (page : Store.Page) : Except EventsError EventsPage := do
  let events ← page.items.mapM decodeEvent
  match page.lastKey with
  | none => return ⟨events, none⟩
  | some key => return ⟨events, some { r with cursor := some (← Cursor.encode key) }⟩

def page (c : Catalogue) (now : Instant) (group : String) (r : PageRequest) :
    Task EventsError EventsPage := do
  let (q, start) ← Task.ofExcept (c.pageQuery now group r)
  let page ← Task.mapError .store (Task.query q start)
  Task.ofExcept (toPage r page)

/-- The first event of a group after an instant. -/
def nextEvent (c : Catalogue) (now : Instant) (group : String) :
    Task EventsError (Option Event) := do
  let q := { c.rangeQuery group (.after (formatStoredDate now)) with limit := some 1 }
  let page ← Task.mapError .store (Task.query q none)
  match page.items with
  | [] => return none
  | item :: _ => Task.ofExcept (some <$> decodeEvent item)

/-- The event with an id, if it is one of the group. -/
def eventById (c : Catalogue) (group id : String) : Task EventsError (Option Event) := do
  match ← Task.mapError .store (Task.getItem c.live (Item.key idName id)) with
  | none => return none
  | some item =>
    let e ← Task.ofExcept (decodeEvent item)
    return if e.groupId = group then some e else none

end Catalogue

end GroupCalendar
