import GroupCalendar.Fields

/-! # Items

An item of a table is a record of attributes. Numbers are kept as the texts they are written in.
-/

namespace GroupCalendar

inductive Attribute where
  | text (s : String)
  | number (s : String)
  | binary (bytes : List UInt8)
  | bool (b : Bool)
  | null (b : Bool)
  | list (elements : List Attribute)
  | record (fields : List (String × Attribute))
  | textSet (texts : List String)
  | numberSet (texts : List String)
  deriving Repr

instance : Inhabited Attribute := ⟨.null true⟩

mutual

/-- Equality of attributes as a test. -/
def Attribute.same : Attribute → Attribute → Bool
  | .text s, .text t => s = t
  | .number s, .number t => s = t
  | .binary s, .binary t => s = t
  | .bool a, .bool b => a = b
  | .null a, .null b => a = b
  | .list xs, .list ys => sameList xs ys
  | .record xs, .record ys => sameFields xs ys
  | .textSet xs, .textSet ys => xs = ys
  | .numberSet xs, .numberSet ys => xs = ys
  | _, _ => false

def Attribute.sameList : List Attribute → List Attribute → Bool
  | [], [] => true
  | x :: xs, y :: ys => Attribute.same x y && sameList xs ys
  | _, _ => false

def Attribute.sameFields : List (String × Attribute) → List (String × Attribute) → Bool
  | [], [] => true
  | (k, x) :: xs, (l, y) :: ys => k = l && Attribute.same x y && sameFields xs ys
  | _, _ => false

end

abbrev Item := Fields Attribute

def Attribute.text? : Attribute → Option String
  | .text s => some s
  | _ => none

namespace Item

/-- The text under a name, if the attribute there is a text. -/
def text? (item : Item) (name : String) : Option String :=
  (Fields.get? name item).bind Attribute.text?

/-- The item of one text, as keys are. -/
def key (name value : String) : Item :=
  [(name, .text value)]

end Item

end GroupCalendar
