import GroupCalendar.Json.Parser

/-! # Skipping JSON values

A value that nobody needs is only checked for its form: its numbers may have any size, its strings
any octets, and it may nest to any depth.
-/

namespace GroupCalendar.Json

/-- A digit at the cursor. -/
def atDigit (c : Cursor) : Bool :=
  (c.rest.head?.bind octetDigit?).isSome

/-- An exponent part, from its letter on. -/
def skipExponent (c : Cursor) : Scan Cursor :=
  let c := c.skip 1
  let c := match c.rest with
    | 0x2B :: _ | 0x2D :: _ => c.skip 1
    | _ => c
  if atDigit c then .ok (skipDigits c).2
  else (if c.rest.isEmpty then c else c.skip 1).here .invalidNumber

def skipExponent? (c : Cursor) : Scan Cursor :=
  match c.rest with
  | 0x65 :: _ | 0x45 :: _ => skipExponent c
  | _ => .ok c

/-- A number without its sign. -/
def skipNumber (c : Cursor) : Scan Cursor := do
  if !atDigit c then (if c.rest.isEmpty then c else c.skip 1).here .invalidNumber
  let zero := c.rest.head? = some 0x30
  let c := if zero then c.skip 1 else (skipDigits c).2
  if zero && atDigit c then c.peeked .invalidNumber
  match c.rest with
  | 0x2E :: _ =>
    let c := c.skip 1
    if atDigit c then skipExponent? (skipDigits c).2 else c.peeked .invalidNumber
  | _ => skipExponent? c

/-- A string, from behind its opening quote. -/
def skipString : Nat → Cursor → Scan Cursor
  | 0, c => c.here .eofInString
  | fuel + 1, c =>
    match c.rest with
    | [] => c.here .eofInString
    | 0x22 :: _ => .ok (c.skip 1)
    | 0x5C :: [] => (c.skip 1).here .eofInString
    | 0x5C :: b :: _ =>
      if b = 0x75 then do
        let (_, c) ← scanHex (c.skip 2)
        skipString fuel c
      else if (letterEscape? b).isSome then skipString fuel (c.skip 2)
      else (c.skip 2).here .invalidEscape
    | b :: _ => if b < 0x20 then c.here .controlCharacter else skipString fuel (c.skip 1)

def skipQuoted (c : Cursor) : Scan Cursor :=
  skipString (c.rest.length + 1) c

/-- The name of a member and its colon. -/
def skipName (c : Cursor) : Scan Cursor := do
  let c := skipSpace c
  match c.rest with
  | [] => c.peeked .eofInObject
  | 0x22 :: _ =>
    let c ← skipQuoted (c.skip 1)
    let (_, c) ← scanColon c
    return c
  | _ => c.peeked .keyMustBeString

mutual

def skipValue : Nat → Cursor → Scan Cursor
  | 0, c => c.here .eofInValue
  | fuel + 1, c =>
    let c := skipSpace c
    match c.rest with
    | [] => c.peeked .eofInValue
    | b :: _ =>
      if b = 0x6E then (·.2) <$> scanIdent [0x75, 0x6C, 0x6C] (c.skip 1)
      else if b = 0x74 then (·.2) <$> scanIdent [0x72, 0x75, 0x65] (c.skip 1)
      else if b = 0x66 then (·.2) <$> scanIdent [0x61, 0x6C, 0x73, 0x65] (c.skip 1)
      else if b = 0x2D then skipNumber (c.skip 1)
      else if (octetDigit? b).isSome then skipNumber c
      else if b = 0x22 then skipQuoted (c.skip 1)
      else if b = 0x5B then skipItems false fuel true (c.skip 1)
      else if b = 0x7B then skipItems true fuel true (c.skip 1)
      else c.peeked .expectedValue

/-- The elements of a list, or the members of an object, and its end. -/
def skipItems (named : Bool) : Nat → Bool → Cursor → Scan Cursor
  | 0, _, c => c.here .eofInValue
  | fuel + 1, first, c => do
    let c := skipSpace c
    let close : UInt8 := if named then 0x7D else 0x5D
    match c.rest with
    | [] => c.peeked (if named then .eofInObject else .eofInList)
    | b :: _ =>
      if b = close then return c.skip 1
      if !first && b ≠ 0x2C then
        c.peeked (if named then .expectedObjectCommaOrEnd else .expectedListCommaOrEnd)
      let c := if first then c else c.skip 1
      let c ← if named then skipName c else pure c
      let c ← skipValue fuel c
      skipItems named fuel false c

end

/-- The cursor behind a value. -/
def skipAny (c : Cursor) : Scan Cursor :=
  skipValue (2 * c.rest.length + 2) c

end GroupCalendar.Json
