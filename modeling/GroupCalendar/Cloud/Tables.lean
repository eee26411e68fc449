import GroupCalendar.Cloud.Call
import GroupCalendar.Item.Wire
import GroupCalendar.Store.Basic
import GroupCalendar.Url.Parser

/-! # Tables in the cloud

The requests to a store as calls of a table service. Batches are checked for their size and empty
ones answered without a call.
-/

namespace GroupCalendar.Cloud.Tables

open Store

/-- The errors of operations that read. -/
def readFaults : Fault.Declared :=
  Fault.shownAsCodes
    ["InternalServerError", "InvalidEndpointException", "ProvisionedThroughputExceededException",
      "RequestLimitExceeded", "ResourceNotFoundException", "ThrottlingException"]

/-- The errors of operations that write. -/
def writeFaults : Fault.Declared :=
  readFaults ++ Fault.shownAsCodes
    ["ItemCollectionSizeLimitExceededException", "ReplicatedWriteConflictException"]

section Bodies

def textAttribute (s : String) : Json :=
  (Attribute.text s).toWire

/-- A condition as text, and the values that it names. -/
def sortCondition : Condition → String × List (String × String)
  | .after low => ("#sk > :sk", [(":sk", low)])
  | .before high => ("#sk < :sk", [(":sk", high)])
  | .between low high => ("#sk BETWEEN :sk_from AND :sk_to", [(":sk_from", low), (":sk_to", high)])

def queryBody (q : Query) (start : Option Item) : Json :=
  let (condition, values) := match q.sort with
    | none => ("", [])
    | some (_, condition) =>
      let (text, values) := sortCondition condition
      (" AND " ++ text, values)
  let names := ("#pk", .string q.partitionName) ::
    (q.sort.map fun (name, _) => ("#sk", Json.string name)).toList
  let values := ((":pk", q.partitionValue) :: values).map fun (name, s) => (name, textAttribute s)
  .ofPairs <|
    [("TableName", .string q.table), ("KeyConditionExpression", .string ("#pk = :pk" ++ condition)),
      ("ExpressionAttributeNames", .ofPairs names),
      ("ExpressionAttributeValues", .ofPairs values)] ++
    (q.index.map fun name => ("IndexName", Json.string name)).toList ++
    (q.limit.map fun n => ("Limit", Json.integer n)).toList ++
    (start.map fun key => ("ExclusiveStartKey", key.toWire)).toList

def getBody (table : String) (key : Item) : Json :=
  .object [("Key", key.toWire), ("TableName", .string table)]

def batchBody (table : String) (entries : Json) : Json :=
  .object [("RequestItems", .object [(table, entries)])]

def keysJson (keys : List Item) : Json :=
  .object [("Keys", .array (keys.map Item.toWire))]

def writeJson : Write → Json
  | .put item => .object [("PutRequest", .object [("Item", item.toWire)])]
  | .delete key => .object [("DeleteRequest", .object [("Key", key.toWire)])]

end Bodies

section Replies

def readPage (x : Json) : Option Page := do
  let items ← readList Item.ofWire? (present? x "Items")
  let last ← readPresent Item.ofWire? (present? x "LastEvaluatedKey")
  return ⟨items, last.filter fun key => !key.isEmpty⟩

def readItem (x : Json) : Option (Option Item) :=
  readPresent Item.ofWire? (present? x "Item")

/-- What a reply says about a table under a name. -/
def ofTable? (x : Json) (name table : String) : Option Json :=
  (present? x name).bind (present? · table)

def readBatch (table : String) (x : Json) : Option Batch := do
  let items ← readList Item.ofWire? (ofTable? x "Responses" table)
  let keys := (ofTable? x "UnprocessedKeys" table).bind (present? · "Keys")
  return ⟨items, ← readList Item.ofWire? keys⟩

/-- An item or key within a write; a missing one is empty. -/
def readEntry (x : Json) (name : String) : Option Item :=
  ((present? x name).elim (some []) Item.ofWire?)

/-- A write, unless it neither puts nor deletes. -/
def readWrite (x : Json) : Option (Option Write) :=
  match present? x "PutRequest", present? x "DeleteRequest" with
  | some put, _ => (readEntry put "Item").map fun item => some (.put item)
  | none, some delete => (readEntry delete "Key").map fun key => some (.delete key)
  | none, none => some none

def readUnprocessed (table : String) (x : Json) : Option (List Write) := do
  let writes ← readList readWrite (ofTable? x "UnprocessedItems" table)
  return writes.filterMap id

end Replies

section Operations

variable [HostNames]

/-- The path of the table service at an address, which is the root unless one is given. -/
def basePath (endpoint : Option String) : Option String :=
  match endpoint with
  | none => some "/"
  | some address => do
    let url ← (Url.parse address).toOption
    if url.host.isNone then none
    let path := (url.path.toChars.reverse.dropWhile (· = '/')).reverse
    return String.ofList (path ++ ['/'])

/-- The value in the reply to an operation. No call is made without a valid address. -/
def operation {α : Type} (endpoint : Option String) (name : String) (faults : Fault.Declared)
    (body : Json) (read : Json → Option α) : ExceptT String Cloud α :=
  match basePath endpoint with
  | none => throw "unhandled error"
  | some path => callFor faults ⟨some s!"DynamoDB_20120810.{name}", path, body.encode⟩ read

/-- The reply to a request. -/
def answer (endpoint : Option String) : (r : Store.Request) → Cloud (Store.Reply r)
  | .query q start =>
    (ExceptT.adapt .read <|
      operation endpoint "Query" readFaults (queryBody q start) readPage).run
  | .getItem table key =>
    (ExceptT.adapt .read <|
      operation endpoint "GetItem" readFaults (getBody table key) readItem).run
  | .batchGet table keys =>
    if maxGets < keys.length then pure (.error (tooManyGets keys.length))
    else if keys.isEmpty then pure (.ok ⟨[], []⟩)
    else
      (ExceptT.adapt .read <|
        operation endpoint "BatchGetItem" readFaults (batchBody table (keysJson keys))
          (readBatch table)).run
  | .batchWrite table writes =>
    if maxWrites < writes.length then pure (.error (tooManyWrites writes.length))
    else if writes.isEmpty then pure (.ok [])
    else
      (ExceptT.adapt .write <|
        operation endpoint "BatchWriteItem" writeFaults
          (batchBody table (.array (writes.map writeJson))) (readUnprocessed table)).run

end Operations

end GroupCalendar.Cloud.Tables
