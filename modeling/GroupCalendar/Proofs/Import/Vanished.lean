import GroupCalendar.Proofs.Event.Dated
import GroupCalendar.Proofs.Import.Effect
import GroupCalendar.Proofs.Time.RoundTrip

/-! # Events that have vanished

An import looks for what has vanished among the events with a date text behind that of now. The
order of these texts is the order of time for the dates that the store writes, so that no coming
event which is no longer listed stays live. An event without a date is outside of the index and is
never missed; so is one whose date is written in another form that sorts before the text of now.
-/

namespace GroupCalendar

open Store Service

namespace Catalogue

variable {c : Catalogue} {m m' : Memory} {incoming : List Event} {gone : List String}
  {id group : String} {item : Item} {now : Instant}

theorem mem_upcomingIds (hk : (m.table c.live).Keyed idName) (hl : m.get? c.live id = some item)
    (hg : item.text? groupName = some group) :
    id ∈ c.upcomingIds m now group ↔
      ∃ s, item.text? dateName = some s ∧ formatStoredDate now < s := by
  rw [mem_upcomingIds_iff hk]
  constructor
  · rintro ⟨other, ho, -, hdate⟩
    obtain rfl : other = item := Option.some.inj (ho.symm.trans hl)
    obtain ⟨s, hs, hlt⟩ := (Option.any_eq_true _ _).mp hdate
    exact ⟨s, hs, of_decide_eq_true hlt⟩
  · rintro ⟨s, hs, hlt⟩
    refine ⟨item, hl, hg, ?_⟩
    rw [hs, Option.any_some]
    exact decide_eq_true hlt

/-- What has vanished is under its id in the archive, and no longer live. -/
theorem Imported.get?_of_mem (h : c.Imported incoming gone m m') (hi : id ∈ gone)
    (hl : m.get? c.live id = some item) :
    m'.get? c.live id = none ∧ m'.get? c.archive id = some item := by
  constructor
  · rw [Memory.get?, h.live_eq, Table.get?_eraseAll, if_pos hi]
  · rw [Memory.get?, h.archive_eq, Table.get?_putAll_rowsAt, if_pos hi, show
      (m.table c.live).get? id = some item from hl, Option.some_or]

/-- What was neither listed nor missed is live as before. -/
theorem Imported.get?_of_notMem (h : c.Imported incoming gone m m') (hi : id ∉ gone)
    (hn : id ∉ incoming.map (·.id)) : m'.get? c.live id = m.get? c.live id := by
  have hnames : id ∉ Fields.names (incoming.map fun e => (e.id, e.toItem)) := by
    rw [Fields.names, List.map_map]
    exact hn
  rw [Memory.get?, h.live_eq, Table.get?_eraseAll, if_neg hi]
  exact Fields.get?_overlay_of_notMem hnames

end Catalogue

/-- A date that the store has written, behind now, has its text behind that of now. -/
theorem formatStoredDate_lt_of_read {now t : Instant}
    (hr : readStoredDate (formatStoredDate t) = .ok t) (h : now.before t) :
    formatStoredDate now < formatStoredDate t := by
  have hyear := Instant.inFourDigits_of_read hr
  have hwhole : t.wholeSecond = t := by
    rw [Instant.readStoredDate_formatStoredDate hyear] at hr
    exact Except.ok.inj hr
  exact formatStoredDate_lt_of_before hyear (wholeSecond_before_of_before hwhole h)

namespace Import

variable {ω : Type} {source : Source ω} {c : Catalogue} {m : Memory}

/-- Every event of the group that is dated after now, as the store writes dates, and is not listed
has moved to the archive. One without a date has stayed. -/
theorem vanished_archived (hc : c.Fits m.schema) (hi : c.IndexIn m.schema) (hk : m.Keyed)
    (hp : 0 < m.schema.pageSize) (hs : ∀ item ∈ m.items c.live, Fields.Sorted item)
    {pages : Nat} {now limit : Instant} {group : String} {w w' : ω} {m' : Memory}
    {r : GroupImport}
    (h : (importGroup c pages now limit group).run.run (answer source) (m, w) =
      (.done (.ok r), m', w')) :
    ∃ incoming, (Listing.eventsUntil pages group limit).run.run (answer source) (m, w) =
        (.done (.ok incoming), m, w') ∧
      ∀ {id : String} {item : Item} {e : Event}, m.get? c.live id = some item →
        Event.ofItem item = .ok e → item.text? Catalogue.groupName = some group →
        id ∉ incoming.map (·.id) →
        (∀ t, e.dateTime = some t → item.text? Catalogue.dateName = some (formatStoredDate t) →
          now.before t → m'.get? c.live id = none ∧ m'.get? c.archive id = some item) ∧
        (e.dateTime = none → m'.get? c.live id = some item) := by
  obtain ⟨incoming, hfetch, himported, -⟩ :=
    (importGroup_ensures hc hi hk hp hs pages now limit group w).of_run h
  refine ⟨incoming, hfetch, ?_⟩
  intro id item e hl he hg hn
  have hlive := hc.live_keyed hk
  have hsorted := hs item (Table.mem_items.mpr ⟨id, hl⟩)
  obtain ⟨hdated, hundated⟩ := Event.text?_of_dateTime hsorted he
  have hmem : id ∈ c.upcomingIds m now group ↔ _ := Catalogue.mem_upcomingIds hlive hl hg
  constructor
  · intro t ht htext hnow
    obtain ⟨s, hs, hread⟩ := hdated t ht
    obtain rfl : s = formatStoredDate t := Option.some.inj (hs.symm.trans htext)
    have hup := hmem.mpr ⟨_, hs, formatStoredDate_lt_of_read hread hnow⟩
    exact himported.get?_of_mem (Catalogue.mem_goneIds.mpr ⟨hup, hn⟩) hl
  · intro hnone
    have hgone : id ∉ c.goneIds m now group incoming := by
      intro hin
      obtain ⟨s, hs, hlt⟩ := hmem.mp (Catalogue.mem_goneIds.mp hin).1
      rw [hundated hnone s hs, String.lt_iff_toList_lt] at hlt
      exact List.not_lt_nil _ hlt
    rw [himported.get?_of_notMem hgone hn, hl]

section Sample

def undatedItem : Item := [("groupId", .text "a"), ("id", .text "undated")]

/-- An item that is dated half a second after noon. -/
def fractionItem : Item := sampleItem "fraction" "a" "2025-04-01T12:00:00.5Z"

/-- Half a second after noon of the first of April 2025. -/
def halfPast : Instant := (sampleNow.addMillis? 500).getD .epoch

def datedEvent (id : String) (t : Instant) : Event :=
  { id := id, groupId := "a", dateTime := some t }

/-- A coming event, one without a date, and one whose date has a fraction. -/
def vanishedSample : Memory :=
  sampleMemory [sampleItem "dated" "a" "2025-05-01T10:00:00Z", undatedItem, fractionItem] {}

def emptySample : Source Unit := sampleSite fun _ _ => sampleAnswer [] ""

/-- The store after an import of the sample. -/
def vanishedAfter : Memory :=
  ((importGroup sampleCatalogue 1 sampleNow (cutoff sampleNow) "a").run.run (answer emptySample)
    (vanishedSample, ())).2.1

theorem vanished_archived_sample :
    (vanishedAfter.get? "live" "dated" = none ∧ vanishedAfter.get? "archive" "dated" =
        some (sampleItem "dated" "a" "2025-05-01T10:00:00Z")) ∧
      vanishedAfter.get? "live" "undated" = some undatedItem := by
  have hc : sampleCatalogue.Fits vanishedSample.schema := ⟨rfl, rfl, by decide⟩
  have hi : sampleCatalogue.IndexIn vanishedSample.schema := rfl
  have hs : ∀ item ∈ vanishedSample.items sampleCatalogue.live, Fields.Sorted item := by
    decide +kernel
  have hrun : (importGroup sampleCatalogue 1 sampleNow (cutoff sampleNow) "a").run.run
      (answer emptySample) (vanishedSample, ()) = (.done (.ok ⟨"a", 1, 0, 1⟩), vanishedAfter, ()) :=
    Prod.ext (Outcome.eq_of_value? (by decide +kernel)) rfl
  obtain ⟨incoming, hfetch, hall⟩ :=
    vanished_archived hc hi (keyed_sampleMemory _ _) (by decide) hs hrun
  obtain rfl : incoming = [] := by
    have hnone : ((Listing.eventsUntil 1 "a" (cutoff sampleNow)).run.run (answer emptySample)
        (vanishedSample, ())).1.value? = some [] := by decide +kernel
    rw [hfetch] at hnone
    exact Option.some.inj hnone
  have hlive : vanishedSample.get? "live" "dated" =
      some (sampleItem "dated" "a" "2025-05-01T10:00:00Z") := rfl
  have hread : Event.ofItem (sampleItem "dated" "a" "2025-05-01T10:00:00Z") =
      .ok (datedEvent "dated" (sampleInstant 1746093600)) := rfl
  have hlive' : vanishedSample.get? "live" "undated" = some undatedItem := rfl
  have hread' : Event.ofItem undatedItem = .ok { id := "undated", groupId := "a" } := rfl
  have hdated := hall hlive hread rfl List.not_mem_nil
  have hundated := hall hlive' hread' rfl List.not_mem_nil
  exact ⟨hdated.1 _ rfl (by decide +kernel) (by decide +kernel), hundated.2 rfl⟩

/-- Neither the event without a date nor the one whose date has a fraction leaves the live table,
although nothing is listed and both are events of the group. -/
theorem undated_event_stays :
    ((importGroup sampleCatalogue 1 sampleNow (cutoff sampleNow) "a").run.run
        (answer emptySample) (vanishedSample, ())).1.value? = some ⟨"a", 1, 0, 1⟩ ∧
      ((Listing.eventsUntil 1 "a" (cutoff sampleNow)).run.run (answer emptySample)
        (vanishedSample, ())).1.value? = some [] ∧
      (vanishedSample.get? "live" "undated" = some undatedItem ∧
        Event.ofItem undatedItem = .ok { id := "undated", groupId := "a", dateTime := none } ∧
        (vanishedAfter.get? "live" "undated").isSome ∧
        vanishedAfter.get? "archive" "undated" = none) ∧
      (vanishedSample.get? "live" "fraction" = some fractionItem ∧
        Event.ofItem fractionItem = .ok (datedEvent "fraction" halfPast) ∧
        sampleNow.before halfPast ∧
        (vanishedAfter.get? "live" "fraction").isSome ∧
        vanishedAfter.get? "archive" "fraction" = none) :=
  ⟨by decide +kernel, by decide +kernel,
    ⟨rfl, rfl, by decide +kernel, by decide +kernel⟩,
    rfl, rfl, by decide, by decide +kernel, by decide +kernel⟩

end Sample

end Import

end GroupCalendar
