import GroupCalendar.Json.Basic
import GroupCalendar.Number.Shortest
import GroupCalendar.Text.Utf8

/-! # Compact JSON text

No space stands between the parts of a value. Strings escape the quote, the backslash and the
control characters below the space, the usual five of them by a letter.
-/

namespace GroupCalendar.Json

/-- A lower-case hexadecimal digit. -/
def hexDigit (n : Nat) : Char :=
  if n < 10 then .ofNat ('0'.toNat + n) else .ofNat ('a'.toNat + (n - 10))

def escapeChar (c : Char) : List Char :=
  if c = '"' then ['\\', '"']
  else if c = '\\' then ['\\', '\\']
  else if c = '\x08' then ['\\', 'b']
  else if c = '\x0c' then ['\\', 'f']
  else if c = '\n' then ['\\', 'n']
  else if c = '\r' then ['\\', 'r']
  else if c = '\t' then ['\\', 't']
  else if c.toNat < 0x20 then
    ['\\', 'u', '0', '0', hexDigit (c.toNat / 16), hexDigit (c.toNat % 16)]
  else [c]

def quote (s : String) : List Char :=
  '"' :: s.toList.flatMap escapeChar ++ ['"']

def integerText (n : Int) : List Char :=
  if n < 0 then '-' :: Nat.toDigits 10 n.natAbs else Nat.toDigits 10 n.natAbs

mutual

def printChars : Json → List Char
  | .null => ['n', 'u', 'l', 'l']
  | .bool true => ['t', 'r', 'u', 'e']
  | .bool false => ['f', 'a', 'l', 's', 'e']
  | .integer n => integerText n
  | .float (.finite s m e) => (Binary64.toText (.finite s m e)).toList
  | .float _ => ['n', 'u', 'l', 'l']
  | .string s => quote s
  | .array elements => '[' :: printElements elements ++ [']']
  | .object members => '{' :: printMembers members ++ ['}']

def printElements : List Json → List Char
  | [] => []
  | [x] => printChars x
  | x :: rest => printChars x ++ ',' :: printElements rest

def printMembers : List (String × Json) → List Char
  | [] => []
  | [(name, x)] => quote name ++ ':' :: printChars x
  | (name, x) :: rest => quote name ++ ':' :: printChars x ++ ',' :: printMembers rest

end

/-- An object whose members stand in the order given. -/
def printInOrder (members : List (String × Json)) : List Char :=
  '{' :: printMembers members ++ ['}']

/-- The compact text of a value. -/
def print (x : Json) : String :=
  String.ofList (printChars x)

/-- The compact text as octets. -/
def encode (x : Json) : List UInt8 :=
  Text.Utf8.encodeChars (printChars x)

end GroupCalendar.Json
