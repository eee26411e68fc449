import GroupCalendar.Encoding.Base64
import GroupCalendar.Event.Catalogue
import GroupCalendar.Text.Split
import GroupCalendar.Text.Utf8

/-! # Cursors

The key from which a page of events starts, as a text that can stand in an address: id, group and
date in URL-safe Base64 with points between them.
-/

namespace GroupCalendar

/-- Why events cannot be shown. -/
inductive EventsError where
  | invalidCursor
  | invalidLimit
  | store (error : Store.StoreError)
  | decode (message : String)
  deriving DecidableEq, Repr

def EventsError.message : EventsError → String
  | .invalidCursor => "invalid cursor"
  | .invalidLimit => "limit must be at least 1"
  | .store error => s!"store error: {error.message}"
  | .decode message => s!"stored event could not be decoded: {message}"

namespace Cursor

def encodePart (key : Item) (name : String) : Except EventsError (List Char) :=
  match key.text? name with
  | some s => .ok (Base64.urlSafe.encodeChars (Text.Utf8.encode s))
  | none => .error (.decode s!"last evaluated key lacks {name}")

/-- The cursor of a key. -/
def encode (key : Item) : Except EventsError String := do
  let id ← encodePart key Catalogue.idName
  let group ← encodePart key Catalogue.groupName
  let date ← encodePart key Catalogue.dateName
  return String.ofList (id ++ '.' :: group ++ '.' :: date)

def decodePart (part : List Char) : Except EventsError Attribute :=
  match (Base64.urlSafe.decode (Text.Utf8.encodeChars part)).toOption.bind Text.Utf8.decode? with
  | some s => .ok (.text s)
  | none => .error .invalidCursor

/-- The key of a cursor. -/
def decode (cursor : String) : Except EventsError Item :=
  match Text.splitAt '.' cursor.toList with
  | [id, group, date] => do
    let id ← decodePart id
    let group ← decodePart group
    let date ← decodePart date
    return [(Catalogue.dateName, date), (Catalogue.groupName, group), (Catalogue.idName, id)]
  | _ => .error .invalidCursor

end Cursor

end GroupCalendar
