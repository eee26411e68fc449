import GroupCalendar.Event.Codec
import GroupCalendar.Json.Decode

/-! # Events as JSON -/

namespace GroupCalendar

namespace Json

def encoding : Encoding Json := ⟨.string, .array, .object⟩

def decoding : Decoding Json DecodeError where
  text := decodeString
  present?
    | .null => none
    | x => some x
  record := decodeRecord
  records name fields initial := decodeList (decodeRecord name fields initial)
  invalid := .invalid

end Json

namespace Event

def toJson (e : Event) : Json :=
  .object (e.encodeFields Json.encoding)

def ofJson (x : Json) : Json.Decoded Event :=
  decode Json.decoding x

end Event

end GroupCalendar
