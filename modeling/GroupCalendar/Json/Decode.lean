import GroupCalendar.Json.Printer
import GroupCalendar.Record
import GroupCalendar.Text.Quoted

/-! # Decoding JSON values

Readers of texts, lists and records from a value, and the errors they give. Null stands for an
absent optional value.
-/

namespace GroupCalendar.Json

inductive DecodeError where
  | invalidType (found : Json) (expected : String)
  | missingField (name : String)
  | duplicateField (name : String)
  | invalidLength (length : Nat) (expected : String)
  | invalid (message : String)
  deriving Repr

/-- How a message names a value that has the wrong type. -/
def describe : Json → String
  | .null => "null"
  | .bool b => s!"boolean `{b}`"
  | .integer n => s!"integer `{n}`"
  | .float x => s!"floating point `{x.toText}`"
  | .string s => s!"string {Text.quoted s}"
  | .array _ => "sequence"
  | .object _ => "map"

def DecodeError.message : DecodeError → String
  | .invalidType found expected => s!"invalid type: {found.describe}, expected {expected}"
  | .missingField name => s!"missing field `{name}`"
  | .duplicateField name => s!"duplicate field `{name}`"
  | .invalidLength length expected => s!"invalid length {length}, expected {expected}"
  | .invalid message => message

abbrev Decoded (α : Type) := Except DecodeError α

abbrev Field (ρ : Type) := Record.Field Json DecodeError ρ

def decodeString : Json → Decoded String
  | .string s => .ok s
  | x => .error (.invalidType x "a string")

def decodeBool : Json → Decoded Bool
  | .bool b => .ok b
  | x => .error (.invalidType x "a boolean")

def decodeOption {α : Type} (decode : Json → Decoded α) : Json → Decoded (Option α)
  | .null => .ok none
  | x => some <$> decode x

def decodeList {α : Type} (decode : Json → Decoded α) : Json → Decoded (List α)
  | .array elements => elements.mapM decode
  | x => .error (.invalidType x "a sequence")

/-- The record of an object's members, or of the elements of a list in the order of the fields. -/
def decodeRecord {ρ : Type} (name : String) (fields : List (Field ρ)) (initial : ρ) :
    Json → Decoded ρ
  | .object members =>
    Record.readNamed fields (fun _ => .ok ()) .missingField members initial
  | .array elements => do
    let count := fields.length
    let noun := if count = 1 then "element" else "elements"
    let expected := s!"struct {name} with {count} {noun}"
    let (r, rest) ← Record.readRow (fun n => .invalidLength n expected) 0 fields elements initial
    if rest.isEmpty then .ok r
    else .error (.invalidLength elements.length "fewer elements in array")
  | x => .error (.invalidType x s!"struct {name}")

end GroupCalendar.Json
