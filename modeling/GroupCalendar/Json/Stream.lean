import GroupCalendar.Json.Decode
import GroupCalendar.Json.Skip

/-! # Reading records from JSON text

A record is read from its text without building a value first, so that the first fault from the
left is reported, be it one of form or one of type. A name may stand once only; members with other
names are skipped. A list gives the fields in their order.
-/

namespace GroupCalendar.Json

inductive ReadFault where
  | malformed (fault : SyntaxFault)
  | mismatch (error : DecodeError)

def ReadFault.message : ReadFault → String
  | .malformed fault => fault.message
  | .mismatch error => error.message

/-- The member or element in which a fault shows. -/
inductive Place where
  | whole
  | member (name : String)
  | element (index : Nat)

def Place.label : Place → String
  | .whole => ""
  | .member name => s!"{name}: "
  | .element index => s!"[{index}]: "

/-- A fault in the text of a record. -/
structure ReadError where
  fault : ReadFault
  offset : Nat
  place : Place

/-- The fault with its line and column in the text. -/
def ReadError.message (text : List UInt8) (e : ReadError) : String :=
  let (line, column) := lineColumn text e.offset
  s!"{e.place.label}{e.fault.message} at line {line} column {column}"

abbrev Reading := Except (Located ReadFault)

def ofScan {α : Type} (x : Scan α) : Reading α :=
  x.mapError fun e => ⟨.malformed e.fault, e.offset⟩

/-- Tells that the value at the cursor is not of the expected type. Its text is read as far as its
kind needs it. -/
def wrongType {α : Type} (expected : String) (c : Cursor) : Reading α :=
  let mismatch (x : Json) (c : Cursor) : Reading α :=
    .error ⟨.mismatch (.invalidType x expected), c.offset⟩
  match c.rest with
  | [] => ofScan (c.peeked .expectedValue)
  | b :: _ =>
    if b = 0x5B then mismatch (.array []) c
    else if b = 0x7B then mismatch (.object []) c
    else do
      let (x, c) ← ofScan (parseValue 2 2 c)
      mismatch x c

/-- A reader of one field at a cursor before which nothing but the blanks of the value stand. -/
abbrev Reader (α : Type) := Cursor → Reading (α × Cursor)

/-- The first octet of a value, from which its kind is seen. -/
def valueStart (c : Cursor) : Reading (UInt8 × Cursor) :=
  let c := skipSpace c
  match c.rest with
  | [] => ofScan (c.peeked .eofInValue)
  | b :: _ => .ok (b, c)

def readString : Reader String := fun c => do
  let (b, c) ← valueStart c
  if b = 0x22 then ofScan (scanString (c.skip 1)) else wrongType "a string" c

/-- A 64-bit integer. -/
def readInteger : Reader Int := fun c => do
  let (b, c) ← valueStart c
  if b = 0x2D || (octetDigit? b).isSome then
    let (x, c') ← ofScan (parseValue 2 2 c)
    match x with
    | .integer n =>
      if IntegerRange.i64.contains n then return (n, c') else wrongType "i64" c
    | _ => wrongType "i64" c
  else wrongType "i64" c

/-- Null, or what a reader reads. -/
def readOption {α : Type} (read : Reader α) : Reader (Option α) := fun c => do
  let (b, c) ← valueStart c
  if b = 0x6E then
    let (_, c) ← ofScan (scanIdent [0x75, 0x6C, 0x6C] (c.skip 1))
    return (none, c)
  else
    let (x, c) ← read c
    return (some x, c)

/-- A declared field and how it is read into a record. -/
structure StreamField (ρ : Type) where
  name : String
  /-- An object must have the field. -/
  required : Bool
  /-- A list must have the field. -/
  positional : Bool
  read : ρ → Reader ρ

namespace StreamField

variable {α ρ : Type}

/-- How a value is read and set in a record. -/
def reading (read : Reader α) (set : α → ρ → ρ) (r : ρ) : Reader ρ := fun c => do
  let (x, c) ← read c
  return (set x r, c)

/-- A field without which no record can be read. -/
def mandatory (name : String) (read : Reader α) (set : α → ρ → ρ) : StreamField ρ :=
  ⟨name, true, true, reading read set⟩

/-- A field with a default. -/
def defaulted (name : String) (read : Reader α) (set : α → ρ → ρ) : StreamField ρ :=
  ⟨name, false, false, reading read set⟩

/-- A field that may be left out of an object, but not of a list. -/
def optional (name : String) (read : Reader α) (set : α → ρ → ρ) : StreamField ρ :=
  ⟨name, false, true, reading read set⟩

end StreamField

def atPlace {α : Type} (place : Place) (x : Reading α) : Except ReadError α :=
  x.mapError fun e => ⟨e.fault, e.offset, place⟩

/-- Where the reading of an object stops when a name stands twice in it. -/
def duplicateOffset (c : Cursor) : Nat :=
  let c := skipSpace c
  if c.rest.head? = some 0x7D then c.offset + 1 else c.offset

section

variable {ρ : Type} (fields : List (StreamField ρ))

/-- Members up to the closing brace; `seen` holds the names read before. -/
def readMembers : Nat → Bool → List String → ρ → Cursor →
    Except ReadError (List String × ρ × Cursor)
  | 0, _, _, _, c => .error ⟨.malformed .eofInObject, c.offset, .whole⟩
  | fuel + 1, first, seen, r, c => do
    match ← atPlace .whole (ofScan (scanMemberStart first c)) with
    | .ended c => return (seen, r, c)
    | .item c =>
      let (name, c) ← atPlace .whole (ofScan (scanString c))
      match fields.find? (·.name = name) with
      | some f =>
        if seen.contains name then
          throw ⟨.mismatch (.duplicateField name), duplicateOffset c, .whole⟩
        let (r, c) ← atPlace (.member name) do
          let (_, c) ← ofScan (scanColon c)
          f.read r c
        readMembers fuel false (name :: seen) r c
      | none =>
        let c ← atPlace (.member name) do
          let (_, c) ← ofScan (scanColon c)
          ofScan (skipAny c)
        readMembers fuel false seen r c

/-- Elements for the fields from the first of them on; `name` is that of the record. -/
def readElements (name : String) : Nat → Bool → List (StreamField ρ) → ρ → Cursor →
    Except ReadError (ρ × Cursor)
  | _, first, [], r, c => do
    -- only the end of the list may follow
    let c := skipSpace c
    let fail (c : Cursor) (f : SyntaxFault) := atPlace .whole (ofScan (c.peeked f))
    match c.rest with
    | [] => fail c .eofInList
    | 0x5D :: _ => return (r, c.skip 1)
    | 0x2C :: _ =>
      let after := skipSpace (c.skip 1)
      if after.rest.head? = some 0x5D && !first then fail after .trailingComma
      else fail after .trailingCharacters
    | _ => fail c .trailingCharacters
  | i, first, f :: fs, r, c => do
    match ← atPlace (.element i) (ofScan (scanElementStart first c)) with
    | .ended c =>
      if (f :: fs).any (·.positional) then
        throw ⟨.mismatch (.invalidLength i s!"struct {name}"), c.offset, .whole⟩
      return (r, c)
    | .item c =>
      let (r, c) ← atPlace (.element i) (f.read r c)
      readElements name (i + 1) false fs r c

/-- A record at the cursor. -/
def readRecord (name : String) (initial : ρ) (c : Cursor) : Except ReadError (ρ × Cursor) := do
  let (b, c) ← atPlace .whole (valueStart c)
  if b = 0x7B then
    let (seen, r, c) ← readMembers fields (c.rest.length + 1) true [] initial (c.skip 1)
    match fields.find? fun f => f.required && !seen.contains f.name with
    | some f => throw ⟨.mismatch (.missingField f.name), c.offset, .whole⟩
    | none => return (r, c)
  else if b = 0x5B then readElements name 0 true fields initial (c.skip 1)
  else atPlace .whole (wrongType s!"struct {name}" c)

/-- The record of a whole text. -/
def readWhole (name : String) (initial : ρ) (text : List UInt8) : Except ReadError ρ := do
  let (r, c) ← readRecord fields name initial (.start text)
  atPlace .whole (ofScan (scanEnd c))
  return r

end

end GroupCalendar.Json
