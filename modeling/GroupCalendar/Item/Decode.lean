import GroupCalendar.Codec
import GroupCalendar.Item.Basic
import GroupCalendar.Number.Shortest
import GroupCalendar.Text.Quoted

/-! # Decoding items

Readers of texts, lists and records from attributes. A number is read even where its value is not
used, so that a malformed one is always reported.
-/

namespace GroupCalendar

/-- A part of a set, named in messages. -/
inductive Member where
  | text (s : String)
  | integer (n : Int)
  | float (x : Binary64)

def Member.describe : Member → String
  | .text s => s!"string {Text.quoted s}"
  | .integer n => s!"integer `{n}`"
  | .float x => s!"floating point `{x.toPositional}`"

inductive ItemError where
  | expectedText
  | expectedRecord
  | expectedList
  | invalidNumber (text : String) (error : FloatError)
  | invalidType (found : Member) (expected : String)
  | missingField (name : String)
  | invalid (message : String)

def ItemError.message : ItemError → String
  | .expectedText => "Expected string"
  | .expectedRecord => "Expected map"
  | .expectedList => "Expected seq"
  | .invalidNumber text error =>
    "Failed to parse '" ++ text ++ "' as a float: " ++ error.message
  | .invalidType found expected => s!"invalid type: {found.describe}, expected {expected}"
  | .missingField name => s!"missing field `{name}`"
  | .invalid message => message

namespace Attribute

/-- An integer of 64 bits with or without a sign, or else a float. -/
def readNumber (s : String) : Except ItemError Member :=
  match IntegerRange.u64.read s.toList, IntegerRange.i64.read s.toList with
  | .ok n, _ => .ok (.integer n)
  | _, .ok n => .ok (.integer n)
  | _, _ =>
    match Binary64.read s.toList with
    | .ok x => .ok (.float x)
    | .error e => .error (.invalidNumber s e)

mutual

/-- The numbers inside an attribute are well formed. -/
def checkNumbers : Attribute → Except ItemError Unit
  | .number s => (readNumber s).map fun _ => ()
  | .numberSet texts => texts.forM fun s => (readNumber s).map fun _ => ()
  | .list elements => checkElements elements
  | .record fields => checkFields fields
  | _ => .ok ()

def checkElements : List Attribute → Except ItemError Unit
  | [] => .ok ()
  | x :: rest => do
    checkNumbers x
    checkElements rest

def checkFields : List (String × Attribute) → Except ItemError Unit
  | [] => .ok ()
  | (_, x) :: rest => do
    checkNumbers x
    checkFields rest

end

abbrev Field (ρ : Type) := Record.Field Attribute ItemError ρ

def decodeText : Attribute → Except ItemError String
  | .text s => .ok s
  | _ => .error .expectedText

/-- The record of named attributes, or of a list in the order of the fields; what is left of a
list is not looked at. -/
def decodeRecord {ρ : Type} (fields : List (Field ρ)) (initial : ρ) :
    Attribute → Except ItemError ρ
  | .record values => Record.readNamed fields checkNumbers .missingField values initial
  | .list values => do
    let (r, _) ← Record.readRow (fun n => .invalid s!"invalid length {n}") 0 fields values initial
    return r
  | _ => .error .expectedRecord

/-- A list of records. A set cannot hold records: its first member is reported. -/
def decodeRecords {ρ : Type} (name : String) (fields : List (Field ρ)) (initial : ρ) :
    Attribute → Except ItemError (List ρ)
  | .list elements => elements.mapM (decodeRecord fields initial)
  | .textSet [] | .numberSet [] => .ok []
  | .textSet (s :: _) => .error (.invalidType (.text s) s!"struct {name}")
  | .numberSet (s :: _) => do
    throw (.invalidType (← readNumber s) s!"struct {name}")
  | _ => .error .expectedList

end Attribute

end GroupCalendar
