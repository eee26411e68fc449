import GroupCalendar.Json.Basic
import GroupCalendar.Number.Numeral
import GroupCalendar.Text.Utf8

/-! # Scanning JSON text

The lexical parts of JSON over octets: blanks, literals, numbers and strings. A fault carries the
offset that is reported with it, either behind the last octet read or, for an octet that was only
looked at, behind that one.
-/

namespace GroupCalendar.Json

inductive SyntaxFault where
  | eofInList
  | eofInObject
  | eofInString
  | eofInValue
  | expectedColon
  | expectedListCommaOrEnd
  | expectedObjectCommaOrEnd
  | expectedIdent
  | expectedValue
  | invalidEscape
  | invalidNumber
  | numberOutOfRange
  | invalidUnicode
  | controlCharacter
  | keyMustBeString
  | loneSurrogate
  | trailingComma
  | trailingCharacters
  | unexpectedEndOfHexEscape
  | recursionLimit
  deriving DecidableEq, Repr

def SyntaxFault.message : SyntaxFault → String
  | .eofInList => "EOF while parsing a list"
  | .eofInObject => "EOF while parsing an object"
  | .eofInString => "EOF while parsing a string"
  | .eofInValue => "EOF while parsing a value"
  | .expectedColon => "expected `:`"
  | .expectedListCommaOrEnd => "expected `,` or `]`"
  | .expectedObjectCommaOrEnd => "expected `,` or `\x7d`"
  | .expectedIdent => "expected ident"
  | .expectedValue => "expected value"
  | .invalidEscape => "invalid escape"
  | .invalidNumber => "invalid number"
  | .numberOutOfRange => "number out of range"
  | .invalidUnicode => "invalid unicode code point"
  | .controlCharacter => "control character (\\u0000-\\u001F) found while parsing a string"
  | .keyMustBeString => "key must be a string"
  | .loneSurrogate => "lone leading surrogate in hex escape"
  | .trailingComma => "trailing comma"
  | .trailingCharacters => "trailing characters"
  | .unexpectedEndOfHexEscape => "unexpected end of hex escape"
  | .recursionLimit => "recursion limit exceeded"

/-- Octets not yet read, and how many were read before them. -/
structure Cursor where
  rest : List UInt8
  offset : Nat

/-- A fault and the offset reported with it. -/
structure Located (ε : Type) where
  fault : ε
  offset : Nat

namespace Cursor

def start (bytes : List UInt8) : Cursor := ⟨bytes, 0⟩

/-- The cursor behind the next `n` octets. -/
def skip (c : Cursor) (n : Nat) : Cursor := ⟨c.rest.drop n, c.offset + n⟩

/-- A fault at the octets read so far. -/
def here {α ε : Type} (c : Cursor) (fault : ε) : Except (Located ε) α :=
  .error ⟨fault, c.offset⟩

/-- A fault in the octet looked at. -/
def peeked {α ε : Type} (c : Cursor) (fault : ε) : Except (Located ε) α :=
  .error ⟨fault, if c.rest.isEmpty then c.offset else c.offset + 1⟩

end Cursor

/-- Line, counted from one, and column of an offset: the column counts octets since the line
began. -/
def lineColumn (bytes : List UInt8) (offset : Nat) : Nat × Nat :=
  (bytes.take offset).foldl
    (fun (place : Nat × Nat) b => if b = 0x0A then (place.1 + 1, 0) else (place.1, place.2 + 1)) (1, 0)

abbrev Scan := Except (Located SyntaxFault)

def isSpace (b : UInt8) : Bool :=
  b = 0x20 || b = 0x0A || b = 0x09 || b = 0x0D

def skipSpace (c : Cursor) : Cursor :=
  go c.rest c.offset
where
  go : List UInt8 → Nat → Cursor
    | [], n => ⟨[], n⟩
    | b :: rest, n => if isSpace b then go rest (n + 1) else ⟨b :: rest, n⟩

/-- The remaining letters of a literal. -/
def scanIdent : List UInt8 → Cursor → Scan (Unit × Cursor)
  | [], c => .ok ((), c)
  | b :: expected, c =>
    match c.rest with
    | [] => c.here .eofInValue
    | b' :: _ => if b = b' then scanIdent expected (c.skip 1) else (c.skip 1).here .expectedIdent

def octetDigit? (b : UInt8) : Option Nat :=
  if 0x30 ≤ b ∧ b ≤ 0x39 then some (b.toNat - 0x30) else none

/-- The cursor behind a run of digits, and their number. -/
def skipDigits (c : Cursor) : Nat × Cursor :=
  let n := (c.rest.takeWhile fun b => (octetDigit? b).isSome).length
  (n, c.skip n)

/-- Digits taken into a significand below `2^64`; the third part tells whether a digit was left
because the significand would grow too large. -/
def takeSignificand : Nat → Nat → List UInt8 → Nat × Nat × Bool
  | n, count, [] => (n, count, false)
  | n, count, b :: rest =>
    match octetDigit? b with
    | none => (n, count, false)
    | some d =>
      if n * 10 + d < 18446744073709551616 then takeSignificand (n * 10 + d) (count + 1) rest
      else (n, count, true)

/-- A significand scaled by a power of ten in steps that each round, the first of at most
`10^308`. Overflow gives `none`. -/
def scaleFloat? : Nat → Binary64 → Int → Option Binary64
  | 0, x, _ => some x
  | fuel + 1, x, e =>
    if e.natAbs ≤ 308 then
      if 0 ≤ e then
        match x.mul (.powerOfTen e.toNat) with
        | .infinite _ => none
        | y => some y
      else some (x.div (.powerOfTen e.natAbs))
    else
      match x with
      | .finite _ 0 _ => some x
      | _ => if 0 ≤ e then none else scaleFloat? fuel (x.div (.powerOfTen 308)) (e + 308)

def signed (positive : Bool) (x : Binary64) : Json :=
  .float (if positive then x else x.negate)

def finishFloat (positive : Bool) (significand : Nat) (exponent : Int) (c : Cursor) : Scan (Json × Cursor) :=
  match scaleFloat? 10000000 (.ofNat significand) exponent with
  | some x => .ok (signed positive x, c)
  | none => c.here .numberOutOfRange

/-- Digits of an exponent, below `2^31`; the third part tells whether they grow too large. -/
def takeExponent : Nat → Nat → List UInt8 → Nat × Nat × Bool
  | n, count, [] => (n, count, false)
  | n, count, b :: rest =>
    match octetDigit? b with
    | none => (n, count, false)
    | some d =>
      if n * 10 + d < 2147483648 then takeExponent (n * 10 + d) (count + 1) rest
      else (n, count + 1, true)

/-- An exponent part, from its letter on. -/
def scanExponent (positive : Bool) (significand : Nat) (exponent : Int) (c : Cursor) :
    Scan (Json × Cursor) :=
  let c := c.skip 1
  let (up, c) := match c.rest with
    | 0x2B :: _ => (true, c.skip 1)
    | 0x2D :: _ => (false, c.skip 1)
    | _ => (true, c)
  match c.rest with
  | [] => c.here .eofInValue
  | b :: _ =>
    if (octetDigit? b).isNone then (c.skip 1).here .invalidNumber
    else
      let (e, count, tooLarge) := takeExponent 0 0 c.rest
      let c := c.skip count
      if tooLarge then
        if significand ≠ 0 && up then c.here .numberOutOfRange
        else .ok (signed positive (.zero false), (skipDigits c).2)
      else
        let e : Int := if up then e else -e
        finishFloat positive significand (max (-2147483648) (min 2147483647 (exponent + e))) c

/-- What may follow the digits of a number that has a point or more digits than are kept. -/
def scanFloatEnd (positive : Bool) (significand : Nat) (exponent : Int) (c : Cursor) :
    Scan (Json × Cursor) :=
  match c.rest with
  | 0x65 :: _ | 0x45 :: _ => scanExponent positive significand exponent c
  | _ => finishFloat positive significand exponent c

/-- A fraction, from its point on. Digits beyond the significand are dropped. -/
def scanFraction (positive : Bool) (significand : Nat) (exponent : Int) (c : Cursor) :
    Scan (Json × Cursor) :=
  let c := c.skip 1
  let (n, count, tooLarge) := takeSignificand significand 0 c.rest
  let c := c.skip count
  if tooLarge then scanFloatEnd positive n (exponent - count) (skipDigits c).2
  else if count = 0 then
    if c.rest.isEmpty then c.peeked .eofInValue else c.peeked .invalidNumber
  else scanFloatEnd positive n (exponent - count) c

/-- What follows a significand with all its whole digits. -/
def scanNumberEnd (positive : Bool) (significand : Nat) (c : Cursor) : Scan (Json × Cursor) :=
  match c.rest with
  | 0x2E :: _ => scanFraction positive significand 0 c
  | 0x65 :: _ | 0x45 :: _ => scanExponent positive significand 0 c
  | _ =>
    if positive then .ok (.integer significand, c)
    else if 0 < significand ∧ significand ≤ 9223372036854775808 then .ok (.integer (-significand), c)
    else .ok (signed false (.ofNat significand), c)

/-- A number without its sign. -/
def scanNumber (positive : Bool) (c : Cursor) : Scan (Json × Cursor) :=
  match c.rest with
  | [] => c.here .eofInValue
  | b :: _ =>
    match octetDigit? b with
    | none => (c.skip 1).here .invalidNumber
    | some 0 =>
      let c := c.skip 1
      match c.rest.head?.bind octetDigit? with
      | some _ => c.peeked .invalidNumber
      | none => scanNumberEnd positive 0 c
    | some _ =>
      let (n, count, tooLarge) := takeSignificand 0 0 c.rest
      let c := c.skip count
      if tooLarge then
        let (more, c) := skipDigits c
        match c.rest with
        | 0x2E :: _ => scanFraction positive n more c
        | _ => scanFloatEnd positive n more c
      else scanNumberEnd positive n c

/-- Four hexadecimal digits. -/
def scanHex (c : Cursor) : Scan (Nat × Cursor) :=
  match c.rest with
  | a :: b :: d :: e :: _ =>
    let digits := [a, b, d, e].mapM fun x => hexDigit? (.ofNat x.toNat)
    match digits with
    | some ds => .ok (ds.foldl (fun n x => n * 16 + x) 0, c.skip 4)
    | none => (c.skip 4).here .invalidEscape
  | _ => (c.skip c.rest.length).here .eofInString

/-- The character of a `\u` escape, read from behind the letter; a pair of surrogates makes one
character. -/
def scanUnicodeEscape (c : Cursor) : Scan (Char × Cursor) := do
  let (n, c) ← scanHex c
  if 0xDC00 ≤ n ∧ n ≤ 0xDFFF then c.here .loneSurrogate
  else if n < 0xD800 ∨ 0xDBFF < n then .ok (.ofNat n, c)
  else
    match c.rest with
    | [] => c.here .eofInString
    | 0x5C :: rest =>
      let c := c.skip 1
      match rest with
      | [] => c.here .eofInString
      | 0x75 :: _ =>
        let (m, c) ← scanHex (c.skip 1)
        if m < 0xDC00 ∨ 0xDFFF < m then c.here .loneSurrogate
        else .ok (.ofNat ((n - 0xD800) * 1024 + (m - 0xDC00) + 0x10000), c)
      | _ => (c.skip 1).here .unexpectedEndOfHexEscape
    | _ => (c.skip 1).here .unexpectedEndOfHexEscape

/-- The octet that a one-letter escape stands for. -/
def letterEscape? (b : UInt8) : Option UInt8 :=
  match b with
  | 0x22 | 0x5C | 0x2F => some b
  | 0x62 => some 0x08
  | 0x66 => some 0x0C
  | 0x6E => some 0x0A
  | 0x72 => some 0x0D
  | 0x74 => some 0x09
  | _ => none

/-- The octets of a string up to its closing quote, latest first, with escapes replaced. -/
def scanStringBytes : Nat → List UInt8 → Cursor → Scan (List UInt8 × Cursor)
  | 0, _, c => c.here .eofInString
  | fuel + 1, acc, c =>
    match c.rest with
    | [] => c.here .eofInString
    | 0x22 :: _ => .ok (acc, c)
    | 0x5C :: [] => (c.skip 1).here .eofInString
    | 0x5C :: b :: _ =>
      if b = 0x75 then do
        let (ch, c) ← scanUnicodeEscape (c.skip 2)
        scanStringBytes fuel ((Text.Utf8.encodeChar ch).reverse ++ acc) c
      else
        match letterEscape? b with
        | some x => scanStringBytes fuel (x :: acc) (c.skip 2)
        | none => (c.skip 2).here .invalidEscape
    | b :: _ =>
      if b < 0x20 then (c.skip 1).here .controlCharacter
      else scanStringBytes fuel (b :: acc) (c.skip 1)

/-- A string, from behind its opening quote. -/
def scanString (c : Cursor) : Scan (String × Cursor) := do
  let (bytes, c) ← scanStringBytes (c.rest.length + 1) [] c
  match Text.Utf8.decode? bytes.reverse with
  | some s => .ok (s, c.skip 1)
  | none => c.here .invalidUnicode

end GroupCalendar.Json
