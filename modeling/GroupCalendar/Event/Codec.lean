import GroupCalendar.Codec
import GroupCalendar.Event.Basic

/-! # Stored form of events

One description of the fields of an event serves every format. The date is written to the whole
second and is left out with the venue and the host when there is none, so that an event without a
date never enters an index by date.
-/

namespace GroupCalendar

variable {ν ε : Type}

namespace Venue

def encode (f : Encoding ν) (v : Venue) : ν :=
  f.record [("address", f.text v.address), ("city", f.text v.city), ("name", f.text v.name),
    ("postalCode", f.text v.postalCode), ("state", f.text v.state)]

def fields (d : Decoding ν ε) : List (Record.Field ν ε Venue) :=
  [d.textField "name" fun s v => { v with name := s },
    d.textField "address" fun s v => { v with address := s },
    d.textField "city" fun s v => { v with city := s },
    d.textField "state" fun s v => { v with state := s },
    d.textField "postalCode" fun s v => { v with postalCode := s }]

end Venue

namespace Host

def encode (f : Encoding ν) (h : Host) : ν :=
  f.record [("name", f.text h.name)]

def fields (d : Decoding ν ε) : List (Record.Field ν ε Host) :=
  [d.textField "name" fun s h => { h with name := s }]

end Host

namespace Image

def encode (f : Encoding ν) (i : Image) : ν :=
  f.record [("baseUrl", f.text i.baseUrl), ("preview", f.text i.preview)]

def fields (d : Decoding ν ε) : List (Record.Field ν ε Image) :=
  [d.textField "baseUrl" fun s i => { i with baseUrl := s },
    d.textField "preview" fun s i => { i with preview := s }]

end Image

namespace Event

/-- The fields of the stored form, in the order of their names. -/
def encodeFields (f : Encoding ν) (e : Event) : Fields ν :=
  (match e.dateTime with
    | some t => [("dateTime", f.text (formatStoredDate t))]
    | none => []) ++
  [("description", f.text e.description), ("duration", f.text e.duration),
    ("eventUrl", f.text e.eventUrl), ("groupId", f.text e.groupId),
    ("groupName", f.text e.groupName)] ++
  (match e.host with
    | some h => [("host", h.encode f)]
    | none => []) ++
  [("id", f.text e.id), ("images", f.list (e.images.map (·.encode f))),
    ("title", f.text e.title)] ++
  (match e.venue with
    | some v => [("venue", v.encode f)]
    | none => [])

/-- A stored date; an empty text stands for no date. -/
def decodeDate (d : Decoding ν ε) (v : ν) : Except ε (Option Instant) := do
  match ← d.option d.text v with
  | none => return none
  | some s =>
    if s.isEmpty then return none
    match readStoredDate s with
    | .ok t => return some t
    | .error e => throw (d.invalid e.message)

/-- The fields of the stored form as they are declared. -/
def fields (d : Decoding ν ε) : List (Record.Field ν ε Event) :=
  [.mandatory "id" fun v e => return { e with id := ← d.text v },
    .mandatory "groupId" fun v e => return { e with groupId := ← d.text v },
    d.textField "groupName" fun s e => { e with groupName := s },
    d.textField "title" fun s e => { e with title := s },
    d.textField "eventUrl" fun s e => { e with eventUrl := s },
    d.textField "description" fun s e => { e with description := s },
    .defaulted "dateTime" fun v e => return { e with dateTime := ← decodeDate d v },
    d.textField "duration" fun s e => { e with duration := s },
    .defaulted "venue" fun v e =>
      return { e with venue := ← d.option (d.record "Venue" (Venue.fields d) {}) v },
    .defaulted "host" fun v e =>
      return { e with host := ← d.option (d.record "Host" (Host.fields d) {}) v },
    .defaulted "images" fun v e =>
      return { e with images := ← d.records "Image" (Image.fields d) {} v }]

def decode (d : Decoding ν ε) (v : ν) : Except ε Event :=
  d.record "Event" (fields d) {} v

end Event

end GroupCalendar
