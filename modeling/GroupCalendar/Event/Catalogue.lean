import GroupCalendar.Event.Item
import GroupCalendar.Store.Batch
import GroupCalendar.Store.Chunks

/-! # The event catalogue

Live events stand in one table under their id and are found by group and date through an index of
it. An archived event moves to a second table: it is written there before it is deleted here.
-/

namespace GroupCalendar

/-- Names of the two tables and of the index. -/
structure Catalogue where
  live : String
  archive : String
  index : String
  deriving DecidableEq, Repr

inductive CatalogueError where
  | write (message : String)
  | read (message : String)
  | serialization (message : String)
  deriving DecidableEq, Repr

namespace CatalogueError

def message : CatalogueError → String
  | .write message => s!"Write error: {message}"
  | .read message => s!"Read error: {message}"
  | .serialization message => s!"Serialization error: {message}"

def ofStore : Store.StoreError → CatalogueError
  | .read message => .read message
  | e => .write e.message

end CatalogueError

namespace Catalogue

def idName : String := "id"
def groupName : String := "groupId"
def dateName : String := "dateTime"

/-- The events of a group, as far as a condition on their date holds. -/
def rangeQuery (c : Catalogue) (group : String) (condition : Store.Condition) : Store.Query :=
  ⟨c.live, some c.index, groupName, group, some (dateName, condition), none⟩

def decodeItems (items : List Item) : Except CatalogueError (List Event) :=
  items.mapM fun item => (Event.ofItem item).mapError fun e => .serialization e.message

/-- The live events of a group that are dated after an instant. -/
def upcoming (c : Catalogue) (pages : Nat) (now : Instant) (group : String) :
    Task CatalogueError (List Event) := do
  let items ← Task.mapError .ofStore <|
    Store.queryAll pages (c.rangeQuery group (.after (formatStoredDate now)))
  Task.ofExcept (decodeItems items)

/-- Events put into the live table, each in place of any with its id. -/
def upsert (c : Catalogue) (events : List Event) : Task CatalogueError Unit :=
  (Store.chunks Store.maxWrites events).forM fun chunk =>
    Task.mapError .ofStore (Store.writeAll c.live (chunk.map fun e => .put e.toItem))

/-- The key of an item found in the live table. -/
def foundKey? (item : Item) : Option Item :=
  (Fields.get? idName item).map fun id => [(idName, id)]

/-- One chunk of ids moved to the archive. -/
def archiveChunk (c : Catalogue) (ids : List String) : Task Store.StoreError Unit := do
  let found ← Store.getAll c.live (ids.map (Item.key idName))
  if found.isEmpty then return
  Store.writeAll c.archive (found.map .put)
  Store.writeAll c.live ((found.filterMap foundKey?).map .delete)

/-- Events moved to the archive by their ids; unknown ids are passed over. -/
def archiveEvents (c : Catalogue) (ids : List String) : Task CatalogueError Unit :=
  (Store.chunks Store.maxWrites ids).forM fun chunk =>
    Task.mapError .ofStore (c.archiveChunk chunk)

end Catalogue

end GroupCalendar
