import GroupCalendar.Url.Address
import GroupCalendar.Url.Percent

/-! # Hosts

The host of an address is a name or a numeric address. Names of the well-known schemes are decoded
and brought into one form in ASCII. What form a name has is known by a library, which is not part of
this one; only the forms of plain names are fixed.
-/

namespace GroupCalendar

inductive UrlError where
  | noBase
  | emptyHost
  | invalidName
  | invalidPort
  | invalidIpv4
  | invalidIpv6
  | invalidCharacter
  deriving DecidableEq, Repr

def UrlError.message : UrlError → String
  | .noBase => "relative URL without a base"
  | .emptyHost => "empty host"
  | .invalidName => "invalid international domain name"
  | .invalidPort => "invalid port number"
  | .invalidIpv4 => "invalid IPv4 address"
  | .invalidIpv6 => "invalid IPv6 address"
  | .invalidCharacter => "invalid domain character"

/-- A library that knows the forms of names. -/
class HostNames where
  /-- The form of a name in ASCII, if it has one. -/
  ascii? : List Char → Option (List Char)

namespace HostNames

/-- Letters, digits, hyphens and points in ASCII, where no label is marked as Punycode. -/
def isPlain (name : List Char) : Bool :=
  name.all (fun c => c.isAlphanum || c = '-' || c = '.') &&
    (Text.splitAt '.' name).all fun label => (label.take 4).map Char.toLower ≠ "xn--".toList

/-- The library that knows the plain names only. Their form has small letters. -/
abbrev plain : HostNames where
  ascii? name := if isPlain name then some (name.map Char.toLower) else none

end HostNames

namespace Url

inductive Host where
  | name (label : List Char)
  | ipv4 (address : Nat)
  | ipv6 (groups : List Nat)
  deriving DecidableEq, Repr

namespace Host

def toChars : Host → List Char
  | .name label => label
  | .ipv4 address => Ipv4.toChars address
  | .ipv6 groups => '[' :: Ipv6.toChars groups ++ [']']

/-- Characters that stand in no host. -/
def isForbidden (c : Char) : Bool :=
  ['\x00', '\t', '\n', '\r', ' ', '#', '/', ':', '<', '>', '?', '@', '[', '\\', ']', '^',
    '|'].contains c

/-- Characters that stand in no name of a well-known scheme. -/
def isForbiddenInName (c : Char) : Bool :=
  isForbidden c || c.toNat < 0x20 || c.toNat = 0x7F || c = '%'

/-- An address in brackets. -/
def parseBracketed (cs : List Char) : Except UrlError Host :=
  if cs.getLast? = some ']' then
    match Ipv6.read? ((cs.drop 1).dropLast) with
    | some groups => .ok (.ipv6 groups)
    | none => .error .invalidIpv6
  else .error .invalidIpv6

/-- The host of a well-known scheme. -/
def parse [HostNames] (cs : List Char) : Except UrlError Host :=
  if cs.head? = some '[' then parseBracketed cs
  else
    match (Text.Utf8.decodeChars? (Percent.decode cs)).bind HostNames.ascii? with
    | none => .error .invalidName
    | some label =>
      if label.any isForbiddenInName then .error .invalidName
      else if label.isEmpty then .error .emptyHost
      else if Ipv4.endsInNumber label then
        match Ipv4.read? label with
        | some address => .ok (.ipv4 address)
        | none => .error .invalidIpv4
      else .ok (.name label)

/-- The host of any other scheme, which is kept as it is written. -/
def parseOther (cs : List Char) : Except UrlError Host :=
  if cs.head? = some '[' then parseBracketed cs
  else if cs.any isForbidden then .error .invalidCharacter
  else .ok (.name (Percent.encode Percent.isControl cs))

end Host

end Url

end GroupCalendar
