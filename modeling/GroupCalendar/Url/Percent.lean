import GroupCalendar.Number.Numeral
import GroupCalendar.Text.Utf8

/-! # Percent encoding

Octets written as `%` and two hexadecimal digits. Which characters are written so depends on the
part of an address they stand in; all beyond ASCII always are.
-/

namespace GroupCalendar.Percent

/-- Control characters and all characters beyond ASCII. -/
def isControl (c : Char) : Bool :=
  c.toNat < 0x20 || 0x7E < c.toNat

/-- The characters encoded in a fragment. -/
def inFragment (c : Char) : Bool :=
  isControl c || [' ', '"', '<', '>', '\x60'].contains c

/-- The characters encoded in a query. -/
def inQuery (c : Char) : Bool :=
  isControl c || [' ', '"', '#', '<', '>'].contains c

/-- The characters encoded in the query of a well-known scheme. -/
def inSpecialQuery (c : Char) : Bool :=
  inQuery c || c = '\''

/-- The characters encoded in a path. -/
def inPath (c : Char) : Bool :=
  inFragment c || ['#', '?', '\x7b', '\x7d'].contains c

/-- The characters encoded in one segment of a path. -/
def inSegment (special : Bool) (c : Char) : Bool :=
  inPath c || c = '/' || c = '%' || (special && c = '\\')

/-- The characters encoded before the at sign of an authority. -/
def inUserInfo (c : Char) : Bool :=
  inPath c || ['/', ':', ';', '=', '@', '[', '\\', ']', '^', '|'].contains c

/-- Letters, digits and some signs are kept in a label of an address; all others are encoded. -/
def inLabel (c : Char) : Bool :=
  !(c.isAlphanum || ['-', '.', '_', '~'].contains c)

/-- An upper-case hexadecimal digit. -/
def hexDigit (n : Nat) : Char :=
  if n < 10 then .ofNat ('0'.toNat + n) else .ofNat ('A'.toNat + (n - 10))

def encodeOctet (b : UInt8) : List Char :=
  ['%', hexDigit (b.toNat / 16), hexDigit (b.toNat % 16)]

def encodeChar (encoded : Char → Bool) (c : Char) : List Char :=
  if encoded c then (Text.Utf8.encodeChar c).flatMap encodeOctet else [c]

/-- A text with every character of a class encoded. -/
def encode (encoded : Char → Bool) (cs : List Char) : List Char :=
  cs.flatMap (encodeChar encoded)

def octetHexDigit? (b : UInt8) : Option Nat :=
  hexDigit? (.ofNat b.toNat)

/-- The octets with every `%` and two digits replaced by the octet they stand for. -/
def decodeOctets : List UInt8 → List UInt8
  | [] => []
  | 0x25 :: x :: y :: rest =>
    match octetHexDigit? x, octetHexDigit? y with
    | some h, some l => .ofNat (h * 16 + l) :: decodeOctets rest
    | _, _ => 0x25 :: decodeOctets (x :: y :: rest)
  | b :: rest => b :: decodeOctets rest

/-- The octets of a text without its encodings. -/
def decode (cs : List Char) : List UInt8 :=
  decodeOctets (Text.Utf8.encodeChars cs)

end GroupCalendar.Percent
