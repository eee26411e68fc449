import GroupCalendar.Service

/-! # Whole batches and whole partitions

Batches are sent again until nothing of them is left unprocessed, with a pause that doubles before
every further attempt, and at most eight times. A partition is read page by page.
-/

namespace GroupCalendar.Store

def maxAttempts : Nat := 8

/-- Milliseconds to wait before an attempt, counted from zero. -/
def backoff (attempt : Nat) : Nat := 25 <<< min attempt 6

/-- The pause before an attempt; there is none before the first. -/
def pause (attempt : Nat) : Task StoreError Unit :=
  if attempt = 0 then pure () else Task.wait (backoff attempt)

/-- Writes sent until none is pending, with so many attempts left. -/
def writePending (table : String) : Nat → List Write → Task StoreError Unit
  | left, pending =>
    if pending.isEmpty then pure ()
    else
      match left with
      | 0 => throw (.unprocessed maxAttempts pending.length)
      | left + 1 => do
        pause (maxAttempts - (left + 1))
        writePending table left (← Task.batchWrite table pending)

/-- All of some writes, at most as many as a batch may hold. -/
def writeAll (table : String) (writes : List Write) : Task StoreError Unit :=
  writePending table maxAttempts writes

/-- Keys looked up until none is pending; the items are added to those found before. -/
def getPending (table : String) : Nat → List Item → List Item → Task StoreError (List Item)
  | left, found, pending =>
    if pending.isEmpty then pure found
    else
      match left with
      | 0 => throw (.unprocessed maxAttempts pending.length)
      | left + 1 => do
        pause (maxAttempts - (left + 1))
        let batch ← Task.batchGet table pending
        getPending table left (found ++ batch.items) batch.unprocessed

/-- The items of some keys, at most as many as a batch may hold. -/
def getAll (table : String) (keys : List Item) : Task StoreError (List Item) :=
  getPending table maxAttempts [] keys

/-- The items of a query from a key on, in at most so many pages. -/
def queryFrom (q : Query) : Nat → Option Item → Task StoreError (List Item)
  | 0, _ => Task.exhausted
  | pages + 1, start => do
    let page ← Task.query q start
    match page.lastKey with
    | none => return page.items
    | some key => return page.items ++ (← queryFrom q pages (some key))

/-- All items of a query. -/
def queryAll (pages : Nat) (q : Query) : Task StoreError (List Item) :=
  queryFrom q pages none

end GroupCalendar.Store
