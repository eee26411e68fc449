import GroupCalendar.Proofs.Import.Effect
import GroupCalendar.Proofs.Listing.Horizon

/-! # Listed events that an import deletes

Stored events are read without a last date, while the listing is followed to its limit only. What
is stored beyond the pages requested is taken to be gone, and these are all the listed events that
an import deletes. They are without a date or after the limit.
-/

namespace GroupCalendar

open Store Service

namespace Catalogue

variable {c : Catalogue} {m m' : Memory}

theorem Imported.deleted_iff {incoming : List Event} {gone : List String}
    (h : c.Imported incoming gone m m') (hg : ∀ id ∈ gone, (m.get? c.live id).isSome)
    {id : String} : c.Deleted m m' id ↔ id ∈ gone := by
  have hl : m'.get? c.live id = if id ∈ gone then none else
      ((m.table c.live).putAll (incoming.map fun e => (e.id, e.toItem))).get? id := by
    rw [Memory.get?, h.live_eq]
    exact Table.get?_eraseAll _ gone id
  constructor
  · rintro ⟨hs, hn⟩
    by_contra hid
    rw [hl, if_neg hid] at hn
    simpa [hn] using Table.isSome_get?_putAll hs (incoming.map fun e => (e.id, e.toItem))
  · intro hid
    exact ⟨hg id hid, by rw [hl, if_pos hid]⟩

end Catalogue

namespace Import

open Listing

variable {ω : Type} {source : Source ω} {c : Catalogue} {m m' : Memory}

/-- A listed event is deleted exactly when it is upcoming in the store and no page requested has
its id; in an ordered listing it is then not dated up to the limit. -/
theorem importGroup_deletes_listed_iff (hc : c.Fits m.schema) (hi : c.IndexIn m.schema)
    (hk : m.Keyed) (hp : 0 < m.schema.pageSize)
    (hs : ∀ item ∈ m.items c.live, Fields.Sorted item) {pages : Nat} {now limit : Instant}
    {group : String} {w w' : ω} {r : GroupImport}
    (h : (importGroup c pages now limit group).run.run (answer source) (m, w) =
      (.done (.ok r), m', w'))
    {ps : List Listing.Page} (hl : Listed source group none ps) (ho : Ordered (eventsOf ps))
    {e : Event} (he : e ∈ eventsOf ps) :
    (c.Deleted m m' e.id ↔ e.id ∈ c.upcomingIds m now group ∧
      e.id ∉ (eventsOf (requested limit ps)).map (·.id)) ∧
    (c.Deleted m m' e.id → ∀ date, e.dateTime = some date → limit.before date = true) := by
  obtain ⟨incoming, hrun, himp, -⟩ :=
    (importGroup_ensures hc hi hk hp hs pages now limit group w).of_run h
  have hinc : incoming = eventsOf (requested limit ps) :=
    (eventsFrom_ensures hl limit pages (m, w)).of_run hrun
  have hlive : (m.table c.live).Keyed Catalogue.idName := hc.live_key ▸ hk c.live
  have hdel : c.Deleted m m' e.id ↔ e.id ∈ c.goneIds m now group incoming :=
    himp.deleted_iff fun id hid =>
      Catalogue.isSome_of_mem_upcomingIds hlive (Catalogue.mem_goneIds.mp hid).1
  rw [Catalogue.mem_goneIds, hinc] at hdel
  refine ⟨hdel, ?_⟩
  intro hd date hdate
  have hn : e ∉ eventsOf (requested limit ps) := fun hm =>
    (hdel.mp hd).2 (List.mem_map_of_mem hm)
  exact before_of_notMem_requested ho he hn hdate

section Sample

/-- The first of December 2025 and the first of February 2026, at ten. -/
def nearDate : Instant := sampleInstant 1764583200
def farDate : Instant := sampleInstant 1769940000

def farPages : List Listing.Page :=
  [⟨some "c1", true, [{ id := "near", groupId := "a", dateTime := nearDate }]⟩,
    ⟨some "", true, [{ id := "far", groupId := "a", dateTime := farDate }]⟩]

def farListed : Source Unit := sampleSite fun _ cursor =>
  if cursor = none then sampleAnswer [sampleEdge "near" "a" "2025-12-01T10:00+00:00"] "c1"
  else sampleAnswer [sampleEdge "far" "a" "2026-02-01T10:00+00:00"] ""

def farStored : Memory :=
  sampleMemory [sampleItem "far" "a" "2026-02-01T10:00:00Z"] {}

deriving instance DecidableEq for Listing.Page

theorem serves_sampleSite {pages : String → Option String → Json} {group : String}
    {cursor : Option String} {p : Listing.Page}
    (h : (Listing.Page.ofAnswer group (pages group cursor)).toOption = some p) :
    Serves (sampleSite pages) group cursor p := by
  intro w
  refine ⟨pages group cursor, ?_, ?_⟩
  · cases cursor <;> rfl
  · cases hp : Listing.Page.ofAnswer group (pages group cursor) with
    | error e => simp [hp, Except.toOption] at h
    | ok q =>
      rw [hp] at h
      exact congrArg Except.ok (Option.some.inj h)

theorem listed_farListed : Listed farListed "a" none farPages := by
  refine .more (serves_sampleSite ?_) (show _ = some "c1" from ?_)
    (.last (serves_sampleSite ?_) ?_)
  all_goals decide +kernel

theorem ordered_farPages : Ordered (eventsOf farPages) := by
  refine List.pairwise_pair.mpr ?_
  rintro s t ⟨⟩ ⟨⟩
  decide

def farRun : Outcome (Except ImportError GroupImport) × Memory × Unit :=
  (importGroup sampleCatalogue 2 sampleNow (cutoff sampleNow) "a").run.run (answer farListed)
    (farStored, ())

/-- The event of the second page is still listed, and deleted. -/
theorem importGroup_deletes_far :
    Listed farListed "a" none farPages ∧ Ordered (eventsOf farPages) ∧
      farRun.1.value? = some ⟨"a", 1, 1, 1⟩ ∧
      ∃ e ∈ eventsOf farPages, sampleCatalogue.Deleted farStored farRun.2.1 e.id := by
  refine ⟨listed_farListed, ordered_farPages, by decide +kernel, _, .tail _ (.head _), ?_, ?_⟩
  · decide +kernel
  · exact Option.isNone_iff_eq_none.mp (by decide +kernel)

theorem importGroup_deletes_listed_iff_far :
    (sampleCatalogue.Deleted farStored farRun.2.1 "far" ↔
      "far" ∈ sampleCatalogue.upcomingIds farStored sampleNow "a" ∧
      "far" ∉ (eventsOf (requested (cutoff sampleNow) farPages)).map (·.id)) ∧
    (sampleCatalogue.Deleted farStored farRun.2.1 "far" →
      ∀ date, some farDate = some date → (cutoff sampleNow).before date = true) := by
  have hc : sampleCatalogue.Fits farStored.schema := ⟨rfl, rfl, by decide⟩
  have hi : sampleCatalogue.IndexIn farStored.schema := rfl
  have hs : ∀ item ∈ farStored.items sampleCatalogue.live, Fields.Sorted item := by
    decide +kernel
  have hrun : farRun = (.done (.ok ⟨"a", 1, 1, 1⟩), farRun.2.1, ()) :=
    Prod.ext (Outcome.eq_of_value? (by decide +kernel)) rfl
  exact importGroup_deletes_listed_iff (e := { id := "far", groupId := "a", dateTime := farDate })
    hc hi (keyed_sampleMemory _ _) (by decide) hs hrun listed_farListed ordered_farPages
    (.tail _ (.head _))

end Sample

end Import

end GroupCalendar
