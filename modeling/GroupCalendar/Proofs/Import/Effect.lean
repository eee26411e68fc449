import GroupCalendar.Import.Group
import GroupCalendar.Proofs.Event.Effects

/-! # Effect of the import of a group

An import that nobody disturbs overlays the live table with the events listed and moves to the
archive what the group had upcoming and the listing has no more. Nothing else changes, and the
report counts the events on each of the three sides.
-/

namespace GroupCalendar

open Store Service

namespace Catalogue

variable {c : Catalogue} {m m' : Memory}

/-- The ids of the upcoming items of a group that none of some events has. -/
def goneIds (c : Catalogue) (m : Memory) (now : Instant) (group : String) (incoming : List Event) :
    List String :=
  (c.upcomingIds m now group).filter fun id => !(incoming.any fun e => e.id = id)

/-- Events have been put into the live table, and then some ids have moved to the archive. -/
structure Imported (c : Catalogue) (incoming : List Event) (gone : List String) (m m' : Memory) :
    Prop where
  schema_eq : m'.schema = m.schema
  live_eq : m'.table c.live =
    ((m.table c.live).putAll (incoming.map fun e => (e.id, e.toItem))).eraseAll gone
  archive_eq : m'.table c.archive =
    (m.table c.archive).putAll ((m.table c.live).rowsAt gone)
  other_eq : ∀ other, other ≠ c.live → other ≠ c.archive → m'.table other = m.table other

theorem mem_goneIds {now : Instant} {group id : String} {incoming : List Event} :
    id ∈ c.goneIds m now group incoming ↔
      id ∈ c.upcomingIds m now group ∧ id ∉ incoming.map (·.id) := by
  rw [goneIds, List.mem_filter, Bool.not_eq_true', ← Bool.not_eq_true, Event.any_id_iff]

theorem apply_upserts (hc : c.Fits m.schema) (t : Table) (events : List Event) :
    t.apply (m.schema.keyName c.live) (events.map fun e => .put e.toItem) =
      t.putAll (events.map fun e => (e.id, e.toItem)) := by
  have hk : ∀ row ∈ events.map fun e => (e.id, e.toItem), row.2.text? idName = some row.1 := by
    intro row hr
    obtain ⟨e, -, rfl⟩ := List.mem_map.mp hr
    exact e.text?_toItem
  rw [hc.live_key, ← Table.apply_puts t hk, List.map_map]
  rfl

theorem rowsAt_putAll {t : Table} {events : List Event} {ids : List String}
    (h : ∀ id ∈ ids, id ∉ events.map (·.id)) :
    (t.putAll (events.map fun e => (e.id, e.toItem))).rowsAt ids = t.rowsAt ids := by
  refine List.filterMap_congr fun id hi => ?_
  have hn : id ∉ Fields.names (events.map fun e => (e.id, e.toItem)) := by
    rw [Fields.names, List.map_map]
    exact h id hi
  change (Fields.get? id (t.rows.overlay _)).map _ = _
  rw [Fields.get?_overlay_of_notMem hn]

/-- Upserting and then archiving what is gone is an import. -/
theorem Wrote.imported {m₁ m₂ : Memory} {incoming : List Event} {gone : List String}
    (hc : c.Fits m.schema) (hg : ∀ id ∈ gone, id ∉ incoming.map (·.id))
    (hw : m.Wrote c.live (incoming.map fun e => .put e.toItem) m₁) (hm : c.Moved gone m₁ m₂) :
    c.Imported incoming gone m m₂ where
  schema_eq := hm.schema_eq.trans hw.schema_eq
  live_eq := by rw [hm.live_eq, hw.table_eq, apply_upserts hc]
  archive_eq := by
    rw [hm.archive_eq, hw.other_eq _ hc.distinct.symm, hw.table_eq, apply_upserts hc,
      rowsAt_putAll hg]
  other_eq other hl ha := by rw [hm.other_eq other hl ha, hw.other_eq other hl]

end Catalogue

namespace Import

variable {ω : Type} {source : Source ω} {c : Catalogue} {m : Memory}

theorem missingIds_perm {stored : List Event} (incoming : List Event) {now : Instant}
    {group : String}
    (h : (stored.map (·.id)).Perm (c.upcomingIds m now group)) :
    (missingIds stored incoming).Perm (c.goneIds m now group incoming) :=
  h.filter _

theorem importGroup_ensures (hc : c.Fits m.schema) (hi : c.IndexIn m.schema) (hk : m.Keyed)
    (hp : 0 < m.schema.pageSize) (hs : ∀ item ∈ m.items c.live, Fields.Sorted item) (pages : Nat)
    (now limit : Instant) (group : String) (w : ω) :
    (importGroup c pages now limit group).Ensures (session source) (m, w) fun r s =>
      ∃ incoming, (Listing.eventsUntil pages group limit).run.run (answer source) (m, w) =
          (.done (.ok incoming), m, s.2) ∧
        c.Imported incoming (c.goneIds m now group incoming) m s.1 ∧
        r = ⟨group, (c.upcomingItems m now group).length, incoming.length,
          (c.goneIds m now group incoming).length⟩ := by
  refine (Catalogue.upcoming_ensures hi hk hp hs pages now group w).mapError.bind ?_
  rintro stored ⟨m₁, w₁⟩ ⟨hids, hlen, hsame, rfl⟩
  refine (Task.ensures_run_graphQl (Listing.eventsFrom_graphQl group limit pages none)
    m m₁ w₁).mapError.bind ?_
  rintro incoming ⟨m₂, w₂⟩ ⟨rfl, hrun⟩
  have hperm := missingIds_perm incoming hids
  refine (Catalogue.upsert_ensures c m₂ incoming w₂).mapError.bind ?_
  rintro _ ⟨m₃, w₃⟩ ⟨hw, rfl⟩
  have hw := hsame.trans_wrote hw
  have hc' : c.Fits m₃.schema := by
    rw [hw.schema_eq]
    exact hc
  refine (Catalogue.archiveEvents_ensures hc' (hc'.live_keyed (hk.of_wrote hw)) _ w₃).mapError.bind ?_
  rintro _ ⟨m₄, w₄⟩ ⟨hm, rfl⟩
  have hm := hm.congr fun id => hperm.mem_iff
  refine Task.ensures_pure ⟨incoming, hrun, ?_, ?_⟩
  · exact Catalogue.Wrote.imported hc (fun id h => (Catalogue.mem_goneIds.mp h).2) hw hm
  · rw [hlen, hperm.length_eq]

/-- An import that succeeds has exactly the effect of its listing, and reports it. -/
theorem importGroup_effect (hc : c.Fits m.schema) (hi : c.IndexIn m.schema) (hk : m.Keyed)
    (hp : 0 < m.schema.pageSize) (hs : ∀ item ∈ m.items c.live, Fields.Sorted item)
    {pages : Nat} {now limit : Instant} {group : String} {w w' : ω} {m' : Memory}
    {r : GroupImport}
    (h : (importGroup c pages now limit group).run.run (answer source) (m, w) =
      (.done (.ok r), m', w')) :
    ∃ incoming, (Listing.eventsUntil pages group limit).run.run (answer source) (m, w) =
        (.done (.ok incoming), m, w') ∧
      c.Imported incoming (c.goneIds m now group incoming) m m' ∧
      r = ⟨group, (c.upcomingItems m now group).length, incoming.length,
        (c.goneIds m now group incoming).length⟩ :=
  (importGroup_ensures hc hi hk hp hs pages now limit group w).of_run h

section Sample

def sampleCatalogue : Catalogue := ⟨"live", "archive", "byGroup"⟩

def sampleSchema : Schema :=
  { indexes := [("byGroup", ⟨Catalogue.groupName, some Catalogue.dateName⟩)] }

def sampleInstant (seconds : Int) : Instant :=
  (Instant.ofUnix? seconds 0).getD .epoch

/-- Noon of the first of April 2025. -/
def sampleNow : Instant := sampleInstant 1743508800

def sampleItem (id group date : String) : Item :=
  [("dateTime", .text date), ("groupId", .text group), ("id", .text id)]

/-- A store with some live items. -/
def sampleMemory (items : List Item) (faults : Faults) : Memory :=
  items.foldl (fun m item => m.putItem "live" item) { schema := sampleSchema, faults := faults }

theorem keyed_sampleMemory (items : List Item) (faults : Faults) :
    (sampleMemory items faults).Keyed := by
  suffices h : ∀ m : Memory, m.Keyed →
      (items.foldl (fun m item => m.putItem "live" item) m).Keyed from
    h _ (Memory.keyed_of_tables_nil rfl)
  induction items with
  | nil => exact fun m hm => hm
  | cons item rest ih => exact fun m hm => ih _ (hm.putItem "live" item)

def sampleEdge (id group date : String) : Json :=
  .object [("node", .object [("dateTime", .string date),
    ("group", .object [("urlname", .string group)]), ("id", .string id)])]

/-- The answer of a page; an empty cursor ends the listing. -/
def sampleAnswer (edges : List Json) (cursor : String) : Json :=
  .object [("data", .object [("events", .object [("unifiedEvents", .object
    [("edges", .array edges),
      ("pageInfo", .object [("endCursor", .string cursor), ("hasNextPage", .bool true)])])])])]

/-- A site that answers by group and cursor. -/
def sampleSite (pages : String → Option String → Json) : Source Unit := fun _ arguments w =>
  (some (.ok (pages (((arguments.get? "urlname").bind Json.string?).getD "")
    ((arguments.get? "cursor").bind Json.string?))), w)

/-- A past event and a coming one, of which a write is left unprocessed at first. -/
def storedSample : Memory :=
  sampleMemory [sampleItem "kept" "a" "2025-03-02T10:00:00Z",
    sampleItem "gone" "a" "2025-05-01T10:00:00Z"] { unprocessedWrites := [1] }

def listedSample : Source Unit := sampleSite fun _ _ =>
  sampleAnswer [sampleEdge "kept" "a" "2025-05-03T10:00+00:00",
    sampleEdge "new" "a" "2025-06-01T10:00+00:00"] ""

theorem importGroup_effect_sample :
    ∃ incoming, (Listing.eventsUntil 2 "a" (cutoff sampleNow)).run.run (answer listedSample)
        (storedSample, ()) = (.done (.ok incoming), storedSample, ()) ∧
      sampleCatalogue.Imported incoming
        (sampleCatalogue.goneIds storedSample sampleNow "a" incoming) storedSample
        ((importGroup sampleCatalogue 2 sampleNow (cutoff sampleNow) "a").run.run
          (answer listedSample) (storedSample, ())).2.1 ∧
      (⟨"a", 1, 2, 1⟩ : GroupImport) =
        ⟨"a", (sampleCatalogue.upcomingItems storedSample sampleNow "a").length, incoming.length,
          (sampleCatalogue.goneIds storedSample sampleNow "a" incoming).length⟩ := by
  have hc : sampleCatalogue.Fits storedSample.schema := ⟨rfl, rfl, by decide⟩
  have hi : sampleCatalogue.IndexIn storedSample.schema := rfl
  have hs : ∀ item ∈ storedSample.items sampleCatalogue.live, Fields.Sorted item := by
    decide +kernel
  exact importGroup_effect hc hi (keyed_sampleMemory _ _) (by decide) hs
    (Prod.ext (Outcome.eq_of_value? (by decide +kernel)) rfl)

end Sample

end Import

end GroupCalendar
