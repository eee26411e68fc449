import GroupCalendar.Item.Basic

/-! # Stores of items

What can be asked of a store whose tables hold items under one text attribute: a range of a
partition page by page, one item, several items and several writes. A store may leave the end of
a batch unprocessed.
-/

namespace GroupCalendar.Store

inductive StoreError where
  | read (message : String)
  | write (message : String)
  | invalidRequest (message : String)
  | unprocessed (attempts remaining : Nat)
  deriving DecidableEq, Repr

def StoreError.message : StoreError → String
  | .read message => s!"Read error: {message}"
  | .write message => s!"Write error: {message}"
  | .invalidRequest message => s!"Invalid request: {message}"
  | .unprocessed attempts remaining =>
    s!"Unprocessed items remain after {attempts} attempts: {remaining} items"

/-- A condition on a text; a range holds its ends. -/
inductive Condition where
  | after (low : String)
  | before (high : String)
  | between (low high : String)
  deriving DecidableEq, Repr

namespace Condition

def holds : Condition → String → Bool
  | .after low, s => low < s
  | .before high, s => s < high
  | .between low high, s => !(s < low) && !(high < s)

end Condition

/-- The items of a table, or of an index of it, with a text as their partition attribute. -/
structure Query where
  table : String
  index : Option String
  partitionName : String
  partitionValue : String
  sort : Option (String × Condition)
  limit : Option Int
  deriving DecidableEq, Repr

/-- Items and the key from which the next page starts. -/
structure Page where
  items : List Item
  lastKey : Option Item

/-- Items found and keys not looked up. -/
structure Batch where
  items : List Item
  unprocessed : List Item

/-- An item put in place of any with its key, or a key whose item is deleted. -/
inductive Write where
  | put (item : Item)
  | delete (key : Item)

def maxWrites : Nat := 25
def maxGets : Nat := 100

inductive Request where
  | query (q : Query) (start : Option Item)
  | getItem (table : String) (key : Item)
  | batchGet (table : String) (keys : List Item)
  | batchWrite (table : String) (writes : List Write)

abbrev Reply : Request → Type
  | .query .. => Except StoreError Page
  | .getItem .. => Except StoreError (Option Item)
  | .batchGet .. => Except StoreError Batch
  | .batchWrite .. => Except StoreError (List Write)

def tooManyGets (count : Nat) : StoreError :=
  .invalidRequest s!"batch get of {count} keys exceeds {maxGets}"

def tooManyWrites (count : Nat) : StoreError :=
  .invalidRequest s!"batch write of {count} items exceeds {maxWrites}"

end GroupCalendar.Store
