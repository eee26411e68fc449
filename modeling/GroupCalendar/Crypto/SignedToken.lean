import GroupCalendar.Encoding.Base64
import GroupCalendar.Json.Printer

/-! # Signed tokens

A token has three parts in URL-safe Base64 with points between them: a header, claims, and the
signature of the two before it.
-/

namespace GroupCalendar.SignedToken

def encodePart (chars : List Char) : List Char :=
  Base64.urlSafeUnpadded.encodeChars (Text.Utf8.encodeChars chars)

/-- A signature as it stands in a token. -/
def encodeSignature (octets : List UInt8) : List Char :=
  Base64.urlSafeUnpadded.encodeChars octets

/-- The part of a token that is signed. -/
def message (header claims : List (String × Json)) : List Char :=
  encodePart (Json.printInOrder header) ++ '.' :: encodePart (Json.printInOrder claims)

/-- The octets of a message. -/
def octets (message : List Char) : List UInt8 :=
  Text.Utf8.encodeChars message

/-- A message with its signature. -/
def join (message : List Char) (signature : List UInt8) : String :=
  String.ofList (message ++ '.' :: encodeSignature signature)

end GroupCalendar.SignedToken
