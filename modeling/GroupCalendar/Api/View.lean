import GroupCalendar.Event.Basic
import GroupCalendar.Json.Basic

/-! # Events as they are shown

The public form of an event names its group in one place and shows null where something is missing.
The date keeps its fraction.
-/

namespace GroupCalendar.View

def venue (v : Venue) : Json :=
  .object [("address", .string v.address), ("city", .string v.city), ("name", .string v.name),
    ("postalCode", .string v.postalCode), ("state", .string v.state)]

def host (h : Host) : Json :=
  .object [("name", .string h.name)]

def image (i : Image) : Json :=
  .object [("baseUrl", .string i.baseUrl), ("preview", .string i.preview)]

def group (e : Event) : Json :=
  .object [("name", .string e.groupName), ("urlname", .string e.groupId)]

def event (e : Event) : Json :=
  .object [
    ("dateTime", .ofOption (e.dateTime.map (·.toText))),
    ("description", .string e.description),
    ("duration", .string e.duration),
    ("eventUrl", .string e.eventUrl),
    ("group", group e),
    ("host", (e.host.map host).getD .null),
    ("id", .string e.id),
    ("images", .array (e.images.map image)),
    ("title", .string e.title),
    ("venue", (e.venue.map venue).getD .null)]

end GroupCalendar.View
