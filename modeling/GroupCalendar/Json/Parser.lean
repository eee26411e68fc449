import GroupCalendar.Json.Scan

/-! # Parsing JSON text

A value of any shape from octets. Members of one name are overlaid, the last one counts. Values
nest at most 127 deep.
-/

namespace GroupCalendar.Json

/-- A fault of syntax with the place where it shows. -/
structure SyntaxError where
  fault : SyntaxFault
  line : Nat
  column : Nat
  deriving DecidableEq, Repr

def SyntaxError.message (e : SyntaxError) : String :=
  s!"{e.fault.message} at line {e.line} column {e.column}"

/-- Values may nest as deep as one less than this. -/
def depthLimit : Nat := 128

/-- Where the next member or element starts, or the end of the list. -/
inductive Separator where
  | ended (c : Cursor)
  | item (c : Cursor)

/-- What stands before an element of a list. -/
def scanElementStart (first : Bool) (c : Cursor) : Scan Separator :=
  let c := skipSpace c
  match c.rest with
  | [] => c.peeked .eofInList
  | 0x5D :: _ => .ok (.ended (c.skip 1))
  | b :: _ =>
    if first then .ok (.item c)
    else if b = 0x2C then
      let c := skipSpace (c.skip 1)
      match c.rest with
      | [] => c.peeked .eofInValue
      | 0x5D :: _ => c.peeked .trailingComma
      | _ => .ok (.item c)
    else c.peeked .expectedListCommaOrEnd

/-- What stands before the name of a member; the name starts behind its quote. -/
def scanMemberStart (first : Bool) (c : Cursor) : Scan Separator :=
  let c := skipSpace c
  match c.rest with
  | [] => c.peeked .eofInObject
  | 0x7D :: _ => .ok (.ended (c.skip 1))
  | b :: _ =>
    if first then
      if b = 0x22 then .ok (.item (c.skip 1)) else c.peeked .keyMustBeString
    else if b = 0x2C then
      let c := skipSpace (c.skip 1)
      match c.rest with
      | [] => c.peeked .eofInValue
      | 0x22 :: _ => .ok (.item (c.skip 1))
      | 0x7D :: _ => c.peeked .trailingComma
      | _ => c.peeked .keyMustBeString
    else c.peeked .expectedObjectCommaOrEnd

/-- The colon behind a name. -/
def scanColon (c : Cursor) : Scan (Unit × Cursor) :=
  let c := skipSpace c
  match c.rest with
  | [] => c.peeked .eofInObject
  | 0x3A :: _ => .ok ((), c.skip 1)
  | _ => c.peeked .expectedColon

mutual

/-- A value, with the nesting depth that is left. -/
def parseValue : Nat → Nat → Cursor → Scan (Json × Cursor)
  | 0, _, c => c.here .eofInValue
  | fuel + 1, depth, c =>
    let c := skipSpace c
    match c.rest with
    | [] => c.peeked .eofInValue
    | b :: _ =>
      if b = 0x6E then do
        let (_, c) ← scanIdent [0x75, 0x6C, 0x6C] (c.skip 1)
        return (.null, c)
      else if b = 0x74 then do
        let (_, c) ← scanIdent [0x72, 0x75, 0x65] (c.skip 1)
        return (.bool true, c)
      else if b = 0x66 then do
        let (_, c) ← scanIdent [0x61, 0x6C, 0x73, 0x65] (c.skip 1)
        return (.bool false, c)
      else if b = 0x2D then scanNumber false (c.skip 1)
      else if (octetDigit? b).isSome then scanNumber true c
      else if b = 0x22 then do
        let (s, c) ← scanString (c.skip 1)
        return (.string s, c)
      else if b = 0x5B then
        if depth ≤ 1 then c.peeked .recursionLimit
        else do
          let (elements, c) ← parseElements fuel (depth - 1) true (c.skip 1)
          return (.array elements, c)
      else if b = 0x7B then
        if depth ≤ 1 then c.peeked .recursionLimit
        else do
          let (members, c) ← parseMembers fuel (depth - 1) true [] (c.skip 1)
          return (.object members, c)
      else c.peeked .expectedValue

/-- The elements of a list and its closing bracket. -/
def parseElements : Nat → Nat → Bool → Cursor → Scan (List Json × Cursor)
  | 0, _, _, c => c.here .eofInList
  | fuel + 1, depth, first, c => do
    match ← scanElementStart first c with
    | .ended c => return ([], c)
    | .item c =>
      let (x, c) ← parseValue fuel depth c
      let (xs, c) ← parseElements fuel depth false c
      return (x :: xs, c)

/-- The members of an object, added to those read before, and its closing brace. -/
def parseMembers : Nat → Nat → Bool → Fields Json → Cursor → Scan (Fields Json × Cursor)
  | 0, _, _, _, c => c.here .eofInObject
  | fuel + 1, depth, first, members, c => do
    match ← scanMemberStart first c with
    | .ended c => return (members, c)
    | .item c =>
      let (name, c) ← scanString c
      let (_, c) ← scanColon c
      let (x, c) ← parseValue fuel depth c
      parseMembers fuel depth false (members.insert name x) c

end

/-- Nothing but blanks follows. -/
def scanEnd (c : Cursor) : Scan Unit :=
  let c := skipSpace c
  if c.rest.isEmpty then .ok () else c.peeked .trailingCharacters

def parseLocated (bytes : List UInt8) : Scan Json := do
  let (x, c) ← parseValue (2 * bytes.length + 2) depthLimit (.start bytes)
  scanEnd c
  return x

/-- The value of a JSON text. -/
def parse (bytes : List UInt8) : Except SyntaxError Json :=
  (parseLocated bytes).mapError fun e =>
    let (line, column) := lineColumn bytes e.offset
    ⟨e.fault, line, column⟩

end GroupCalendar.Json
