import GroupCalendar.Text.Split
import GroupCalendar.Url.Percent

/-! # Form data

Names and values in the query of an address. A plus sign stands for a space.
-/

namespace GroupCalendar.Form

def encodeOctet (b : UInt8) : List Char :=
  let c := Char.ofNat b.toNat
  if b < 0x80 && (c.isAlphanum || ['*', '-', '.', '_'].contains c) then [c]
  else if b = 0x20 then ['+']
  else Percent.encodeOctet b

def encodeText (s : String) : List Char :=
  (Text.Utf8.encode s).flatMap encodeOctet

def encodePair (pair : String × String) : List Char :=
  encodeText pair.1 ++ '=' :: encodeText pair.2

/-- The query of some names and values. -/
def encode (pairs : List (String × String)) : List Char :=
  Text.joinWith '&' (pairs.map encodePair)

/-- A name or value; octets that are no text become replacement characters. -/
def decodeText (bytes : List UInt8) : String :=
  Text.Utf8.decodeLossy (Percent.decodeOctets (bytes.map fun b => if b = 0x2B then 0x20 else b))

def decodePair (bytes : List UInt8) : String × String :=
  match Text.cutAt 0x3D bytes with
  | some (name, value) => (decodeText name, decodeText value)
  | none => (decodeText bytes, "")

/-- The names and values of a query in their order. -/
def decode (bytes : List UInt8) : List (String × String) :=
  ((Text.splitAt 0x26 bytes).filter (!·.isEmpty)).map decodePair

end GroupCalendar.Form
