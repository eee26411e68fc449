import GroupCalendar.Proofs.Event.RoundTrip
import GroupCalendar.Proofs.Import.Confinement
import GroupCalendar.Proofs.Import.Vanished
import GroupCalendar.Proofs.Listing.Budget

/-! # Importing again

After an import all upcoming items of the group are items of events that were listed. They can be
read, since what sorts behind a year of four digits has one as well. At the same instant, with the
same listing and without faults, a second import therefore succeeds, misses nothing, and writes
what is there already.
-/

namespace GroupCalendar

open Store Service

namespace Catalogue

variable {c : Catalogue} {m m' : Memory} {incoming : List Event} {gone : List String}
  {id group : String} {item : Item} {now : Instant}

section Contents

variable (h : c.Imported incoming gone m m')

include h

/-- What is live after an import has been listed, or was neither listed nor missed. -/
theorem Imported.live_cases (hl : m'.get? c.live id = some item) :
    (∃ e ∈ incoming, e.id = id ∧ item = e.toItem) ∨
      id ∉ gone ∧ id ∉ incoming.map (·.id) ∧ m.get? c.live id = some item := by
  have hgone : id ∉ gone := by
    intro hg
    rw [Memory.get?, h.live_eq, Table.get?_eraseAll, if_pos hg] at hl
    cases hl
  by_cases hn : id ∈ incoming.map (·.id)
  · have hnames : id ∈ Fields.names (incoming.map fun e => (e.id, e.toItem)) := by
      rwa [Fields.names, List.map_map]
    obtain ⟨other, hother, hget⟩ := Fields.get?_overlay_of_mem (m.table c.live).rows hnames
    obtain ⟨e, he, hrow⟩ := List.mem_map.mp hother
    obtain ⟨rfl, rfl⟩ := Prod.mk.inj hrow
    rw [Memory.get?, h.live_eq, Table.get?_eraseAll, if_neg hgone] at hl
    exact .inl ⟨e, he, rfl, Option.some.inj (hl.symm.trans hget)⟩
  · rw [h.get?_of_notMem hgone hn] at hl
    exact .inr ⟨hgone, hn, hl⟩

theorem Imported.sorted (hs : ∀ item ∈ m.items c.live, Fields.Sorted item) :
    ∀ item ∈ m'.items c.live, Fields.Sorted item := by
  intro item hitem
  obtain ⟨id, hl⟩ := Table.mem_items.mp hitem
  rcases h.live_cases hl with ⟨e, -, -, rfl⟩ | ⟨-, -, hl⟩
  · exact e.sorted_toItem
  · exact hs item (Table.mem_items.mpr ⟨id, hl⟩)

/-- Putting the events that were listed once more changes nothing. -/
theorem Imported.putAll_live (hg : ∀ id ∈ gone, id ∉ incoming.map (·.id)) :
    (m'.table c.live).putAll (incoming.map fun e => (e.id, e.toItem)) = m'.table c.live := by
  refine Table.ext fun id => ?_
  by_cases hn : id ∈ Fields.names (incoming.map fun e => (e.id, e.toItem))
  · have hgone : id ∉ gone := by
      intro hmem
      rw [Fields.names, List.map_map] at hn
      exact hg id hmem hn
    conv_rhs => rw [h.live_eq, Table.get?_eraseAll, if_neg hgone]
    exact Fields.get?_overlay_congr hn
  · exact Fields.get?_overlay_of_notMem hn

end Contents

section Upcoming

variable (h : c.Imported incoming (c.goneIds m now group incoming) m m')
  (hk : (m.table c.live).Keyed idName)

include h hk

/-- After an import the upcoming items of the group are items of events that were listed. -/
theorem Imported.upcoming (hi : item ∈ c.upcomingItems m' now group) :
    ∃ e ∈ incoming, item = e.toItem := by
  obtain ⟨hitem, hmatch⟩ := List.mem_filter.mp hi
  obtain ⟨id, hl⟩ := Table.mem_items.mp hitem
  rcases h.live_cases hl with ⟨e, he, -, rfl⟩ | ⟨hgone, hn, hl⟩
  · exact ⟨e, he, rfl⟩
  · refine absurd (mem_goneIds.mpr ⟨?_, hn⟩) hgone
    rw [Bool.and_eq_true, decide_eq_true_eq] at hmatch
    exact (mem_upcomingIds_iff hk).mpr ⟨item, hl, hmatch⟩

theorem Imported.upcomingIds_subset : c.upcomingIds m' now group ⊆ incoming.map (·.id) := by
  intro id hid
  obtain ⟨item, hitem, htext⟩ := List.mem_filterMap.mp hid
  obtain ⟨e, he, rfl⟩ := h.upcoming hk hitem
  rw [e.text?_toItem, Option.some.injEq] at htext
  exact List.mem_map.mpr ⟨e, he, htext⟩

theorem Imported.exists_ofItem (hnow : now.InFourDigits)
    (hi : item ∈ c.upcomingItems m' now group) : ∃ e, Event.ofItem item = .ok e := by
  obtain ⟨e, -, rfl⟩ := h.upcoming hk hi
  obtain ⟨-, hmatch⟩ := List.mem_filter.mp hi
  rw [Bool.and_eq_true, e.dateText?_toItem, Option.any_map] at hmatch
  refine ⟨e.stored, Event.ofItem_toItem fun t ht => ?_⟩
  rw [ht] at hmatch
  exact inFourDigits_of_lt hnow (of_decide_eq_true hmatch.2)

end Upcoming

variable {ω : Type} {source : Source ω}

/-- Without faults the upcoming events are read, if each of their items can be. -/
theorem upcoming_completes (hi : c.IndexIn m.schema) (hk : m.Keyed) (hp : 0 < m.schema.pageSize)
    (hs : ∀ item ∈ m.items c.live, Fields.Sorted item) (hq : m.Quiet)
    (hread : ∀ item ∈ c.upcomingItems m now group, ∃ e, Event.ofItem item = .ok e) {pages : Nat}
    (hl : (c.upcomingItems m now group).length < pages) (w : ω) :
    (c.upcoming pages now group).Completes (session source) (m, w) fun events s =>
      (events.map (·.id)).Perm (c.upcomingIds m now group) ∧
      events.length = (c.upcomingItems m now group).length ∧ m.Same s.1 ∧ s.1.Quiet ∧ s.2 = w := by
  have hperm := matching_perm_upcomingItems hi now group
  rw [← hperm.length_eq] at hl
  refine (queryFrom_completes hq (hk c.live) hp (m.leaves_matching _) hl w).mapError.bind ?_
  rintro items s ⟨rfl, hsame, hq', hw⟩
  obtain ⟨events, he⟩ := exists_decodeItems fun item hitem => hread item (hperm.subset hitem)
  obtain ⟨hids, hlength⟩ := ids_of_decodeItems_matching hi hs he
  exact Task.completes_ofExcept he ⟨hids, hlength, hsame, hq', hw⟩

end Catalogue

namespace Import

open Catalogue

variable {ω : Type} {source : Source ω} {c : Catalogue} {m m' : Memory} {now limit : Instant}
  {group : String} {incoming : List Event} {w w' : ω}

/-- Putting events that leave the table as it is and archiving nothing changes nothing. -/
theorem rewrite_completes (hc : c.Fits m.schema) (hq : m.Quiet)
    (hput : (m.table c.live).putAll (incoming.map fun e => (e.id, e.toItem)) = m.table c.live)
    (r : GroupImport) (w : ω) :
    Task.Completes (session source)
      (do
        Task.mapError ImportError.upsert (c.upsert incoming)
        Task.mapError .archive (c.archiveEvents [])
        return r)
      (m, w) fun r' s => r' = r ∧ m.Same s.1 ∧ s.2 = w := by
  have hupsert : (c.upsert incoming).Completes ((session source).restrict fun _ => True) (m, w)
      fun _ s => s.1.schema = m.schema ∧ s.1.Quiet :=
    upsert_completes hc hq (fun _ _ => trivial) w
  refine (hupsert.and_ensures (upsert_ensures c m incoming w)).of_restrict.mapError.bind ?_
  rintro _ s ⟨-, hwrote, hw⟩
  refine Task.completes_pure ⟨rfl, ⟨hwrote.schema_eq, fun name => ?_⟩, hw⟩
  by_cases hn : name = c.live
  · rw [hn, hwrote.table_eq, apply_upserts hc, hput]
  · exact hwrote.other_eq name hn

/-- The listing is walked as before, whatever the store holds by now. -/
theorem eventsUntil_completes {pages pages' : Nat}
    (h : (Listing.eventsUntil pages group limit).run.run (answer source) (m, w) =
      (.done (.ok incoming), m, w')) (hle : pages ≤ pages') (m' : Memory) :
    (Listing.eventsUntil pages' group limit).Completes (session source) (m', w) fun events s =>
      events = incoming ∧ s = (m', w') := by
  refine Program.completes_of_run (Listing.eventsUntil_run_eq ?_ hle)
  have hgraphQl := Program.Meets.mono (Listing.eventsFrom_graphQl group limit pages none)
    fun _ _ _ => trivial
  have hrun := (run_graphQl source hgraphQl m m' w).1
  change (Listing.eventsUntil pages group limit).run.run (answer source) (m', w) =
    (((Listing.eventsUntil pages group limit).run.run (answer source) (m, w)).1, m',
      ((Listing.eventsUntil pages group limit).run.run (answer source) (m, w)).2.2) at hrun
  rw [hrun, h]

theorem missingIds_eq_nil {stored : List Event}
    (h : ∀ id ∈ stored.map (·.id), id ∈ incoming.map (·.id)) : missingIds stored incoming = [] := by
  refine List.filter_eq_nil_iff.mpr fun id hid => ?_
  rw [Bool.not_eq_true', Bool.not_eq_false, Event.any_id_iff]
  exact h id hid

/-- Without faults an import that has succeeded succeeds again, at the same instant and with the
same listing, if the budget is large enough. It archives nothing and changes nothing. -/
theorem importGroup_idempotent (hc : c.Fits m.schema) (hi : c.IndexIn m.schema) (hk : m.Keyed)
    (hp : 0 < m.schema.pageSize) (hs : ∀ item ∈ m.items c.live, Fields.Sorted item)
    (hq : m.Quiet) (hnow : now.InFourDigits) {pages pages' : Nat} {r : GroupImport}
    (h : (importGroup c pages now limit group).run.run (answer source) (m, w) =
      (.done (.ok r), m', w'))
    (hpages : pages ≤ pages') (hroom : (c.upcomingItems m' now group).length < pages') :
    ∃ m'', (importGroup c pages' now limit group).run.run (answer source) (m', w) =
        (.done (.ok ⟨group, (c.upcomingItems m' now group).length, r.incoming, 0⟩), m'', w') ∧
      m'.Same m'' := by
  obtain ⟨incoming, hfetch, himported, rfl⟩ :=
    (importGroup_ensures hc hi hk hp hs pages now limit group w).of_run h
  have hend : ((importGroup c pages now limit group).run.run (answer source) (m, w)).2.1 = m' := by
    rw [h]
  have hk' : m'.Keyed := hend ▸ run_keeps (fun _ r hk => hk.answer r) source _ hk w
  have hq' : m'.Quiet := hend ▸ quiet_run _ hq w
  have hc' : c.Fits m'.schema := himported.schema_eq ▸ hc
  have hi' : c.IndexIn m'.schema := by rwa [himported.schema_eq]
  have hp' : 0 < m'.schema.pageSize := by rwa [himported.schema_eq]
  have hlive := hc.live_keyed hk
  have hread : ∀ item ∈ c.upcomingItems m' now group, ∃ e, Event.ofItem item = .ok e :=
    fun _ hitem => himported.exists_ofItem hlive hnow hitem
  have hput := himported.putAll_live fun id hid => (mem_goneIds.mp hid).2
  have hcompletes : (importGroup c pages' now limit group).Completes (session source) (m', w)
      fun r s => r = ⟨group, (c.upcomingItems m' now group).length, incoming.length, 0⟩ ∧
        m'.Same s.1 ∧ s.2 = w' := by
    refine (upcoming_completes hi' hk' hp' (himported.sorted hs) hq' hread hroom w).mapError.bind ?_
    rintro stored ⟨m₁, w₁⟩ ⟨hids, hlength, hsame, hq₁, rfl⟩
    refine (eventsUntil_completes hfetch hpages m₁).mapError.bind ?_
    rintro incoming _ ⟨rfl, rfl⟩
    have hmissing := missingIds_eq_nil fun id hid =>
      himported.upcomingIds_subset hlive (hids.subset hid)
    rw [← hsame.table_eq] at hput
    simp only [hmissing, List.length_nil]
    refine (rewrite_completes (hsame.schema_eq ▸ hc') hq₁ hput _ w').mono ?_
    rintro _ s ⟨rfl, hsame', hw⟩
    exact ⟨by rw [hlength], hsame.trans hsame', hw⟩
  obtain ⟨r, s, hrun, rfl, hsame, rfl⟩ := hcompletes.exists_run
  exact ⟨s.1, hrun, hsame⟩

section Sample

/-- A past event of the group, a coming one, and a coming one of another group. -/
def repeatedStore : Memory :=
  sampleMemory [sampleItem "kept" "a" "2025-03-02T10:00:00Z",
    sampleItem "gone" "a" "2025-05-01T10:00:00Z", sampleItem "other" "b" "2025-05-02T10:00:00Z"] {}

/-- One event is listed twice, one without a date, and one of another group. -/
def repeatedSite : Source Unit := sampleSite fun _ _ =>
  sampleAnswer [sampleEdge "kept" "a" "2025-05-03T10:00+00:00",
    sampleEdge "kept" "a" "2025-06-01T10:00+00:00", sampleEdge "undated" "a" "soon",
    sampleEdge "other" "b" "2025-06-02T10:00+00:00"] ""

def importedStore : Memory :=
  ((importGroup sampleCatalogue 1 sampleNow (cutoff sampleNow) "a").run.run (answer repeatedSite)
    (repeatedStore, ())).2.1

theorem importGroup_idempotent_sample :
    ∃ m'', (importGroup sampleCatalogue 2 sampleNow (cutoff sampleNow) "a").run.run
        (answer repeatedSite) (importedStore, ()) = (.done (.ok ⟨"a", 1, 4, 0⟩), m'', ()) ∧
      importedStore.Same m'' := by
  have hc : sampleCatalogue.Fits repeatedStore.schema := ⟨rfl, rfl, by decide⟩
  have hs : ∀ item ∈ repeatedStore.items sampleCatalogue.live, Fields.Sorted item := by
    decide +kernel
  have hrun : (importGroup sampleCatalogue 1 sampleNow (cutoff sampleNow) "a").run.run
      (answer repeatedSite) (repeatedStore, ()) =
        (.done (.ok ⟨"a", 1, 4, 1⟩), importedStore, ()) :=
    Prod.ext (Outcome.eq_of_value? (by decide +kernel)) rfl
  have hcount : (sampleCatalogue.upcomingItems importedStore sampleNow "a").length = 1 := by
    decide +kernel
  have hnow : sampleNow.InFourDigits := ⟨by decide +kernel, by decide +kernel⟩
  have h := importGroup_idempotent hc rfl (keyed_sampleMemory _ _) (by decide) hs rfl hnow hrun
    (show 1 ≤ 2 by decide) (by rw [hcount]; decide)
  rwa [hcount] at h

end Sample

end Import

end GroupCalendar
