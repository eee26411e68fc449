import GroupCalendar.Fields
import GroupCalendar.Number.Binary64

/-! # JSON values

Objects keep their members in the order of the names, each name once. Integers from `-2^63` to
`2^64 - 1` stay integers; every other number has double precision.
-/

namespace GroupCalendar

inductive Json where
  | null
  | bool (b : Bool)
  | integer (n : Int)
  | float (x : Binary64)
  | string (s : String)
  | array (elements : List Json)
  | object (members : List (String × Json))
  deriving Repr

namespace Json

/-- The integers that a number without point and exponent stands for. -/
def isIntegral (n : Int) : Bool :=
  -9223372036854775808 ≤ n && n < 18446744073709551616

instance : Inhabited Json := ⟨.null⟩

/-- The member of an object under a name. -/
def get? (name : String) : Json → Option Json
  | .object members => Fields.get? name members
  | _ => none

/-- An object of members in any order; the last of a name counts. -/
def ofPairs (pairs : List (String × Json)) : Json :=
  .object (Fields.ofPairs pairs)

def string? : Json → Option String
  | .string s => some s
  | _ => none

/-- A text, or null in its absence. -/
def ofOption (s : Option String) : Json :=
  s.elim .null .string

end Json

end GroupCalendar
