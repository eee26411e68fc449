import GroupCalendar.Store.Basic
import GroupCalendar.Store.Table

/-! # A store in memory

Tables with their key attributes and indexes. Faults can be set: an error for the next request, an
error for every write to a table, and how many entries at the end of each coming batch stay
unprocessed. Requests are counted, refused ones too.
-/

namespace GroupCalendar.Store

/-- Attributes of an index. -/
structure Index where
  partitionName : String
  sortName : Option String

structure Schema where
  keyNames : Fields String := []
  indexes : Fields Index := []
  pageSize : Nat := 100

structure Faults where
  nextError : Option StoreError := none
  writeErrors : Fields StoreError := []
  unprocessedWrites : List Nat := []
  unprocessedGets : List Nat := []

/-- Numbers of requests. -/
structure Calls where
  query : Nat := 0
  getItem : Nat := 0
  batchGet : Nat := 0
  batchWrite : Nat := 0
  deriving DecidableEq, Repr

structure Memory where
  schema : Schema
  tables : Fields Table := []
  faults : Faults := {}
  calls : Calls := {}

namespace Schema

/-- The attribute under whose text a table keeps an item. -/
def keyName (s : Schema) (table : String) : String :=
  (s.keyNames.get? table).getD "id"

def key (s : Schema) (table : String) (item : Item) : Except StoreError String :=
  match item.text? (s.keyName table) with
  | some key => .ok key
  | none => .error (.invalidRequest s!"missing key attribute: {s.keyName table}")

/-- The attribute by which a query sorts: that of its index, or that of its condition. -/
def sortName (s : Schema) (q : Query) : Option String :=
  match q.index with
  | some index => (s.indexes.get? index).bind (·.sortName)
  | none => q.sort.map (·.1)

/-- An index without the sort attribute does not hold the item. -/
def indexed (s : Schema) (q : Query) (item : Item) : Bool :=
  match q.index, s.sortName q with
  | some _, some name => (item.text? name).isSome
  | _, _ => true

def isMatch (s : Schema) (q : Query) (item : Item) : Bool :=
  item.text? q.partitionName = some q.partitionValue && s.indexed q item &&
    match q.sort with
    | some (name, condition) => (item.text? name).any condition.holds
    | none => true

/-- The texts that decide the place of an item in the answer to a query. -/
def sortKey (s : Schema) (q : Query) (item : Item) : Option String × Option String :=
  ((s.sortName q).bind item.text?, item.text? (s.keyName q.table))

/-- No text comes before every text. -/
def textBefore : Option String → Option String → Bool
  | _, none => false
  | none, some _ => true
  | some a, some b => a < b

def notAfter (a b : Option String × Option String) : Bool :=
  textBefore a.1 b.1 || (a.1 = b.1 && !textBefore b.2 a.2)

/-- All matching items of a table in the order of a query. -/
def matching (s : Schema) (q : Query) (t : Table) : List Item :=
  (t.items.filter (s.isMatch q)).mergeSort fun a b => notAfter (s.sortKey q a) (s.sortKey q b)

/-- What follows the item with the key from which a page starts. -/
def resume (s : Schema) (q : Query) (start : Option Item) (items : List Item) : List Item :=
  match start with
  | none => items
  | some key =>
    let name := s.keyName q.table
    (items.dropWhile fun item => item.text? name ≠ key.text? name).drop 1

/-- The key from which the page behind an item starts. -/
def resumeKey (s : Schema) (q : Query) (item : Item) : Item :=
  let names := s.keyName q.table :: q.partitionName :: (s.sortName q).toList
  Fields.ofPairs (names.filterMap fun name => (Fields.get? name item).map (name, ·))

/-- The number of items of a page. -/
def pageLimit (s : Schema) (q : Query) : Nat :=
  match q.limit with
  | some l => min (max l 1).toNat s.pageSize
  | none => s.pageSize

end Schema

namespace Memory

/-- A table; one that was never written to is empty. -/
def table (m : Memory) (name : String) : Table :=
  (m.tables.get? name).getD .empty

def setTable (m : Memory) (name : String) (t : Table) : Memory :=
  { m with tables := m.tables.insert name t }

def items (m : Memory) (table : String) : List Item :=
  (m.table table).items

def get? (m : Memory) (table key : String) : Option Item :=
  (m.table table).get? key

/-- An item put into a table; an item without a key is dropped. -/
def putItem (m : Memory) (table : String) (item : Item) : Memory :=
  match m.schema.key table item with
  | .ok key => m.setTable table ((m.table table).insert key item)
  | .error _ => m

/-- The error set for the next request, taken away. -/
def takeError (m : Memory) : Option StoreError × Memory :=
  (m.faults.nextError, { m with faults := { m.faults with nextError := none } })

def query (m : Memory) (q : Query) (start : Option Item) : Except StoreError Page × Memory :=
  let m := { m with calls := { m.calls with query := m.calls.query + 1 } }
  match m.takeError with
  | (some e, m) => (.error e, m)
  | (none, m) =>
    let remaining := m.schema.resume q start (m.schema.matching q (m.table q.table))
    let items := remaining.take (m.schema.pageLimit q)
    let lastKey :=
      if items.length < remaining.length then items.getLast?.map (m.schema.resumeKey q) else none
    (.ok ⟨items, lastKey⟩, m)

def getItem (m : Memory) (table : String) (key : Item) :
    Except StoreError (Option Item) × Memory :=
  let m := { m with calls := { m.calls with getItem := m.calls.getItem + 1 } }
  match m.schema.key table key with
  | .error e => (.error e, m)
  | .ok key =>
    match m.takeError with
    | (some e, m) => (.error e, m)
    | (none, m) => (.ok (m.get? table key), m)

/-- A list cut before its last entries, as many as the first of the counts says. -/
def holdBack {α : Type} (counts : List Nat) (xs : List α) : List α × List α :=
  let n := xs.length - counts.headD 0
  (xs.take n, xs.drop n)

def lookUp (m : Memory) (table : String) : List Item → Except StoreError (List Item)
  | [] => .ok []
  | key :: rest => do
    let found := m.get? table (← m.schema.key table key)
    return found.toList ++ (← lookUp m table rest)

def batchGet (m : Memory) (table : String) (keys : List Item) : Except StoreError Batch × Memory :=
  let m := { m with calls := { m.calls with batchGet := m.calls.batchGet + 1 } }
  if maxGets < keys.length then (.error (tooManyGets keys.length), m)
  else
    match m.takeError with
    | (some e, m) => (.error e, m)
    | (none, m) =>
      let (now, later) := holdBack m.faults.unprocessedGets keys
      let rest := m.faults.unprocessedGets.tail
      let m := { m with faults := { m.faults with unprocessedGets := rest } }
      ((m.lookUp table now).map (⟨·, later⟩), m)

def applyWrite (m : Memory) (table : String) : Write → Except StoreError Memory
  | .put item => do
    let key ← m.schema.key table item
    return m.setTable table ((m.table table).insert key item)
  | .delete item => do
    let key ← m.schema.key table item
    return m.setTable table ((m.table table).erase key)

/-- Writes in their order, up to the first that has no key. -/
def applyWrites (m : Memory) (table : String) : List Write → Option StoreError × Memory
  | [] => (none, m)
  | w :: rest =>
    match m.applyWrite table w with
    | .ok m => applyWrites m table rest
    | .error e => (some e, m)

def batchWrite (m : Memory) (table : String) (writes : List Write) :
    Except StoreError (List Write) × Memory :=
  let m := { m with calls := { m.calls with batchWrite := m.calls.batchWrite + 1 } }
  if maxWrites < writes.length then (.error (tooManyWrites writes.length), m)
  else
    match m.takeError with
    | (some e, m) => (.error e, m)
    | (none, m) =>
      match m.faults.writeErrors.get? table with
      | some e => (.error e, m)
      | none =>
        let (now, later) := holdBack m.faults.unprocessedWrites writes
        let rest := m.faults.unprocessedWrites.tail
        let m := { m with faults := { m.faults with unprocessedWrites := rest } }
        match m.applyWrites table now with
        | (none, m) => (.ok later, m)
        | (some e, m) => (.error e, m)

/-- The answer to a request. -/
def answer (m : Memory) : (r : Request) → Reply r × Memory
  | .query q start => m.query q start
  | .getItem table key => m.getItem table key
  | .batchGet table keys => m.batchGet table keys
  | .batchWrite table writes => m.batchWrite table writes

end Memory

end GroupCalendar.Store
