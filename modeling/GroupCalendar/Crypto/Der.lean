import GroupCalendar.Number.Numeral
import GroupCalendar.Number.Octets
import GroupCalendar.Text.Utf8
import GroupCalendar.Time.Civil

/-! # DER

The elements of a DER text as a tree, as far as keys are made of them: object identifiers, octets
and sequences. All other elements are known by their form only. No sequence is empty.
-/

namespace GroupCalendar

inductive Der where
  | identifier (arcs : List Nat)
  /-- The octets of a bit string or of an octet string. -/
  | octets (contents : List UInt8)
  | sequence (elements : List Der)
  | other

namespace Der

/-- A number in groups of seven bits, of which the last has no mark. -/
def readGroups : Nat → List UInt8 → Option (Nat × List UInt8)
  | _, [] => none
  | n, b :: rest =>
    let n := n * 128 + b.toNat % 128
    if b < 0x80 then some (n, rest) else readGroups n rest

/-- The length of an element. -/
def readLength : List UInt8 → Option (Nat × List UInt8)
  | [] => none
  | b :: rest =>
    let count := b.toNat - 0x80
    if b < 0x80 then some (b.toNat, rest)
    else if 8 < count ∨ rest.length < count then none
    else some (numberOf (rest.take count), rest.drop count)

/-- Class and constructed form, and the number of the tag. -/
def readTag : List UInt8 → Option ((UInt8 × Nat) × List UInt8)
  | [] => none
  | b :: rest => do
    if b.toNat % 32 = 31 then
      let (n, rest) ← readGroups 0 rest
      return ((b >>> 5, n), rest)
    else return ((b >>> 5, b.toNat % 32), rest)

/-- The arcs of an object identifier behind the first two, which share one octet. -/
def readArcs : Nat → List UInt8 → Option (List Nat)
  | 0, _ => none
  | _ + 1, [] => some []
  | fuel + 1, contents => do
    let (n, rest) ← readGroups 0 contents
    return n :: (← readArcs fuel rest)

def readIdentifier : List UInt8 → Option Der
  | [] => none
  | b :: rest => do
    let first := min 2 (b.toNat / 40)
    return .identifier (first :: (b.toNat - first * 40) :: (← readArcs (rest.length + 1) rest))

/-- Octets without the count of unused bits before them. -/
def readBits : List UInt8 → Option Der
  | [] => some (.octets [])
  | unused :: contents =>
    if 8 * contents.length < unused.toNat then none else some (.octets contents)

/-- Month, day, hour, minute and second in two digits each. -/
def isDate (year : Nat) (digits : List Nat) : Bool :=
  match digits with
  | [a, b, c, d, e, f, g, h, i, j] =>
    (Date.ofParts? year (a * 10 + b) (c * 10 + d)).isSome && e * 10 + f < 24 && g * 10 + h < 60 &&
      i * 10 + j < 60
  | _ => false

def digits? (contents : List UInt8) : Option (List Nat) :=
  contents.mapM fun b => digit? (.ofNat b.toNat)

/-- A time with two digits of the year, which lies between 1950 and 2049. -/
def isShortTime (contents : List UInt8) : Bool :=
  match digits? (contents.take 12), contents.drop 12 with
  | some (y :: y' :: digits), [0x5A] =>
    let year := y * 10 + y'
    isDate (if year < 50 then 2000 + year else 1900 + year) digits
  | _, _ => false

/-- A time with four digits of the year and at most nine of a fraction. -/
def isLongTime (contents : List UInt8) : Bool :=
  match digits? (contents.take 14) with
  | some (y :: y' :: y'' :: y''' :: digits) =>
    isDate (y * 1000 + y' * 100 + y'' * 10 + y''') digits &&
      match contents.drop 14 with
      | [0x5A] => true
      | 0x2E :: rest =>
        rest.getLast? = some 0x5A && rest.length ≤ 10 && (digits? rest.dropLast).isSome
      | _ => false
  | _ => false

/-- A character of a printable text. -/
def isPrintable (b : UInt8) : Bool :=
  let c := Char.ofNat b.toNat
  b < 0x80 && (c.isAlphanum || " '()+,-./:=?".toList.contains c)

/-- The contents of an element that is known by its form only. -/
def isWellFormed (tag : Nat) (contents : List UInt8) : Bool :=
  match tag with
  | 0x01 => contents.length = 1
  | 0x0C | 0x14 => (Text.Utf8.decode? contents).isSome
  | 0x13 => contents.all isPrintable
  | 0x16 => contents.all (· < 0x80)
  | 0x17 => isShortTime contents
  | 0x18 => isLongTime contents
  | _ => true

/-- The elements of a text, at most so many in a row and within each other. -/
def elements : Nat → List UInt8 → Option (List Der)
  | 0, _ => none
  | _ + 1, [] => some []
  | fuel + 1, text => do
    let ((form, tag), rest) ← readTag text
    let (length, rest) ← readLength rest
    if rest.length < length then none
    let contents := rest.take length
    let element ←
      if 1 < form then pure .other
      else if tag = 0x03 then readBits contents
      else if tag = 0x04 then pure (.octets contents)
      else if tag = 0x06 then readIdentifier contents
      else if tag = 0x10 ∨ tag = 0x11 then do
        let inner ← elements fuel contents
        if inner.isEmpty then none
        pure (if tag = 0x10 then .sequence inner else .other)
      else if isWellFormed tag contents then pure .other
      else none
    return element :: (← elements fuel (rest.drop length))

/-- The elements of a text that has some. -/
def parse? (text : List UInt8) : Option (List Der) :=
  (elements (text.length + 1) text).filter fun es => !es.isEmpty

mutual

/-- The first answer that a question about elements has, looked for within sequences. -/
def first? {α : Type} (ask : Der → Option α) : List Der → Option α
  | [] => none
  | e :: rest => firstOf? ask e <|> first? ask rest

def firstOf? {α : Type} (ask : Der → Option α) : Der → Option α
  | .sequence elements => first? ask elements
  | e => ask e

end

end Der

end GroupCalendar
