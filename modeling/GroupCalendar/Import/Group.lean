import GroupCalendar.Event.Catalogue
import GroupCalendar.Listing.Walk

/-! # Import of one group

The events that the catalogue holds for a group are compared with those listed: listed events are
put into the catalogue, and upcoming ones that are listed no more are archived. Nothing is written
before both sides have been read.
-/

namespace GroupCalendar.Import

/-- Months that a listing is followed into the future. -/
def lookaheadMonths : Nat := 6

/-- The date after which a listing is followed no further. -/
def cutoff (now : Instant) : Instant :=
  (now.addMonths? lookaheadMonths).getD .latest

/-- The stored events that are not among the incoming ones, by id and in their order. -/
def missingIds (stored incoming : List Event) : List String :=
  (stored.map (·.id)).filter fun id => !(incoming.any fun e => e.id = id)

inductive ImportError where
  | stored (error : CatalogueError)
  | listing (error : Listing.ListingError)
  | upsert (error : CatalogueError)
  | archive (error : CatalogueError)
  deriving DecidableEq, Repr

/-- What the import of a group did. -/
structure GroupImport where
  group : String
  stored : Nat
  incoming : Nat
  archived : Nat
  deriving DecidableEq, Repr

def importGroup (c : Catalogue) (pages : Nat) (now limit : Instant) (group : String) :
    Task ImportError GroupImport := do
  let stored ← Task.mapError .stored (c.upcoming pages now group)
  let incoming ← Task.mapError .listing (Listing.eventsUntil pages group limit)
  let missing := missingIds stored incoming
  Task.mapError .upsert (c.upsert incoming)
  Task.mapError .archive (c.archiveEvents missing)
  return ⟨group, stored.length, incoming.length, missing.length⟩

end GroupCalendar.Import
