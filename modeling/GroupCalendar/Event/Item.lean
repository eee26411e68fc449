import GroupCalendar.Event.Codec
import GroupCalendar.Item.Decode

/-! # Events as items -/

namespace GroupCalendar

namespace Attribute

def encoding : Encoding Attribute := ⟨.text, .list, .record⟩

def decoding : Decoding Attribute ItemError where
  text := decodeText
  present?
    | .null true => none
    | x => some x
  record _ := decodeRecord
  records := decodeRecords
  invalid := .invalid

end Attribute

namespace Event

def toItem (e : Event) : Item :=
  e.encodeFields Attribute.encoding

def ofItem (item : Item) : Except ItemError Event :=
  decode Attribute.decoding (.record item)

end Event

end GroupCalendar
