import GroupCalendar.Encoding.Base64
import GroupCalendar.Item.Basic
import GroupCalendar.Json.Basic
import GroupCalendar.Text.Utf8

/-! # Attributes on the wire

An attribute is sent as an object whose only member names its kind. Octets are sent in Base64.
-/

namespace GroupCalendar

namespace Attribute

mutual

def toWire : Attribute → Json
  | .text s => .object [("S", .string s)]
  | .number s => .object [("N", .string s)]
  | .binary bytes => .object [("B", .string (Base64.standard.encode bytes))]
  | .bool b => .object [("BOOL", .bool b)]
  | .null b => .object [("NULL", .bool b)]
  | .list elements => .object [("L", .array (toWireList elements))]
  | .record fields => .object [("M", .object (toWireFields fields))]
  | .textSet texts => .object [("SS", .array (texts.map .string))]
  | .numberSet texts => .object [("NS", .array (texts.map .string))]

def toWireList : List Attribute → List Json
  | [] => []
  | x :: rest => toWire x :: toWireList rest

def toWireFields : List (String × Attribute) → List (String × Json)
  | [] => []
  | (name, x) :: rest => (name, toWire x) :: toWireFields rest

end

/-- The texts of a list of texts. -/
def texts? : List Json → Option (List String)
  | [] => some []
  | .string s :: rest => (texts? rest).map (s :: ·)
  | _ => none

mutual

def ofWire? : Json → Option Attribute
  | .object [(kind, x)] => ofKind? kind x
  | _ => none

/-- The attribute of a kind from the value sent with it. -/
def ofKind? (kind : String) : Json → Option Attribute
  | .string s =>
    if kind = "S" then some (.text s)
    else if kind = "N" then some (.number s)
    else if kind = "B" then
      (Base64.standard.decode (Text.Utf8.encode s)).toOption.map .binary
    else none
  | .bool b =>
    if kind = "BOOL" then some (.bool b) else if kind = "NULL" then some (.null b) else none
  | .array elements =>
    if kind = "L" then (ofWireList? elements).map .list
    else if kind = "SS" then (texts? elements).map .textSet
    else if kind = "NS" then (texts? elements).map .numberSet
    else none
  | .object members => if kind = "M" then (ofWireFields? members).map .record else none
  | _ => none

def ofWireList? : List Json → Option (List Attribute)
  | [] => some []
  | x :: rest => return (← ofWire? x) :: (← ofWireList? rest)

def ofWireFields? : List (String × Json) → Option (List (String × Attribute))
  | [] => some []
  | (name, x) :: rest => return (name, ← ofWire? x) :: (← ofWireFields? rest)

end

end Attribute

namespace Item

def toWire (item : Item) : Json :=
  .object (Attribute.toWireFields item)

def ofWire? : Json → Option Item
  | .object members => Attribute.ofWireFields? members
  | _ => none

end Item

end GroupCalendar
