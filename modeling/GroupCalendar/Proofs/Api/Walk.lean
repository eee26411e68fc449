import GroupCalendar.Proofs.Api.Page
import GroupCalendar.Proofs.Import.Effect

/-! # Walking through the pages of a group

Between two pages of a walk the clock may move and events may come, go and change. As long as each
cursor names the place of an event that is still shown, the pages follow each other in the order of
places, and an event that stays the same and in the range is given once. A cursor whose event is
gone ends the walk.
-/

namespace GroupCalendar

namespace Catalogue

open Store Service

variable {ω : Type} {source : Source ω} {c : Catalogue} {m : Memory} {now : Instant}
  {group id : String} {r : PageRequest} {item : Item}

/-- A request for a page, with the clock and the store at its time. -/
structure Visit where
  now : Instant
  memory : Memory
  request : PageRequest

/-- Requests of which each is the one that the page before names, up to a page that names none, and
the events of all their pages. -/
inductive Walk (c : Catalogue) (source : Source ω) (group : String) :
    List Visit → List Event → Prop
  | last {v : Visit} {events : List Event} {w : ω} {s : Memory × ω}
      (h : (c.page v.now group v.request).run.run (answer source) (v.memory, w) =
        (.done (.ok ⟨events, none⟩), s)) : Walk c source group [v] events
  | next {v v' : Visit} {visits : List Visit} {events rest : List Event} {w : ω} {s : Memory × ω}
      (h : (c.page v.now group v.request).run.run (answer source) (v.memory, w) =
        (.done (.ok ⟨events, some v'.request⟩), s))
      (hw : Walk c source group (v' :: visits) rest) :
      Walk c source group (v :: v' :: visits) (events ++ rest)

section Events

variable {items : List Item} {events : List Event}

/-- The events with an id are those of the items with the id. -/
theorem filter_id (h : List.Forall₂ (fun item e => Event.ofItem item = .ok e) items events)
    (hs : ∀ item ∈ items, Fields.Sorted item) (id : String) :
    events.filter (·.id = id) = readable (items.filter (·.text? idName = some id)) := by
  induction h with
  | nil => rfl
  | @cons item e items events he _ ih =>
    obtain ⟨hi, hr⟩ := List.forall_mem_cons.mp hs
    have hid := Event.text?_of_ofItem hi he
    rw [List.filter_cons, List.filter_cons, hid, ih hr]
    by_cases hid : e.id = id
    · simp [hid, readable, he, Except.toOption]
    · simp [hid]

theorem exists_event (h : List.Forall₂ (fun item e => Event.ofItem item = .ok e) items events)
    (hi : item ∈ items) : ∃ e, Event.ofItem item = .ok e := by
  induction h with
  | nil => cases hi
  | @cons item' e items events he _ ih =>
    rcases List.mem_cons.mp hi with rfl | hi
    · exact ⟨e, he⟩
    · exact ih hi

/-- One item alone satisfies a condition. -/
theorem filter_eq_singleton {p : Item → Bool}
    (hd : items.Pairwise fun a b => place a < place b) (hi : item ∈ items) (hp : p item = true)
    (hu : ∀ other ∈ items, p other = true → other = item) : items.filter p = [item] := by
  obtain ⟨front, back, rfl⟩ := List.append_of_mem hi
  obtain ⟨-, hback, hfront⟩ := List.pairwise_append.mp hd
  rw [List.filter_append, List.filter_cons_of_pos hp, List.filter_eq_nil_iff.mpr,
    List.filter_eq_nil_iff.mpr, List.nil_append]
  · intro other ho hother
    obtain rfl := hu other (List.mem_append_right _ (List.mem_cons_of_mem _ ho)) hother
    exact lt_irrefl _ ((List.pairwise_cons.mp hback).1 _ ho)
  · intro other ho hother
    obtain rfl := hu other (List.mem_append_left _ ho) hother
    exact lt_irrefl _ (hfront _ ho _ List.mem_cons_self)

end Events

namespace PageOf

variable {page : EventsPage} {items remaining : List Item}

theorem inRange (hp : c.PageOf m now group r page items remaining) {other : Item}
    (ho : other ∈ items) : c.InRange m now group r other :=
  ((hp.mem_remaining other).mp (hp.prefix_remaining.subset ho)).1

/-- A live item is the only one of a page with its id. -/
theorem eq_of_id (hp : c.PageOf m now group r page items remaining) (hs : c.Serves m)
    (hl : m.get? c.live id = some item) {other : Item} (ho : other ∈ items)
    (hid : other.text? idName = some id) : other = item := by
  obtain ⟨key, hkey⟩ := Table.mem_items.mp (hp.inRange ho).1
  obtain rfl : key = id := Option.some.inj ((hs.keyed key other hkey).symm.trans hid)
  exact Option.some.inj (hkey.symm.trans hl)

/-- A live item is given once by a page that has it. -/
theorem filter_of_mem (hp : c.PageOf m now group r page items remaining) (hs : c.Serves m)
    (hl : m.get? c.live id = some item) (hi : item ∈ items) {e : Event}
    (he : Event.ofItem item = .ok e) : page.events.filter (·.id = id) = [e] := by
  have hsorted : items.Pairwise fun a b => place a < place b :=
    hp.sorted.sublist hp.prefix_remaining.sublist
  have hfields : ∀ other ∈ items, Fields.Sorted other := fun other ho =>
    hs.sorted other (hp.inRange ho).1
  rw [filter_id hp.decoded hfields, filter_eq_singleton hsorted hi
    (decide_eq_true (hs.keyed id item hl))
    fun other ho hother => hp.eq_of_id hs hl ho (of_decide_eq_true hother)]
  rw [readable, List.filterMap_cons, he]
  rfl

theorem filter_of_notMem (hp : c.PageOf m now group r page items remaining) (hs : c.Serves m)
    (hl : m.get? c.live id = some item) (hi : item ∉ items) :
    page.events.filter (·.id = id) = [] := by
  have hfields : ∀ other ∈ items, Fields.Sorted other := fun other ho =>
    hs.sorted other (hp.inRange ho).1
  rw [filter_id hp.decoded hfields, List.filter_eq_nil_iff.mpr]
  · rfl
  · intro other ho hother
    obtain rfl := hp.eq_of_id hs hl ho (of_decide_eq_true hother)
    exact hi ho

/-- The page that follows starts behind the last item of this one. -/
theorem ahead_next (hp : c.PageOf m now group r page items remaining) {r' : PageRequest}
    (hr : page.next = some r') :
    ∃ front last, items = front ++ [last] ∧
      ∀ item, Ahead r' item ↔ place last < place item := by
  obtain ⟨last, hlast, cursor, key, -, hkey, hplace⟩ := hp.next_eq r' hr
  obtain ⟨front, hfront⟩ := List.getLast?_eq_some_iff.mp hlast
  refine ⟨front, last, hfront, fun item => ⟨fun h => hplace ▸ h key hkey, fun h key' hkey' => ?_⟩⟩
  rw [hkey] at hkey'
  cases hkey'
  rw [hplace]
  exact h

/-- The next page has what this one leaves of what is behind the cursor, and nothing else. -/
theorem ahead_next_iff (hp : c.PageOf m now group r page items remaining) {r' : PageRequest}
    (hr : page.next = some r') (hi : c.InRange m now group r item) :
    Ahead r' item ↔ Ahead r item ∧ item ∉ items := by
  obtain ⟨front, last, hitems, hahead⟩ := hp.ahead_next hr
  have hlast : last ∈ items := hitems ▸ List.mem_append_right _ List.mem_cons_self
  obtain ⟨tail, htail⟩ := hp.prefix_remaining
  have hsorted := hp.sorted
  rw [← htail] at hsorted
  obtain ⟨hfront, -, hcross⟩ := List.pairwise_append.mp hsorted
  rw [hahead]
  constructor
  · intro hlt
    refine ⟨fun key hkey => ?_, fun hmem => ?_⟩
    · have hkeylast := ((hp.mem_remaining last).mp (hp.prefix_remaining.subset hlast)).2 key hkey
      exact hkeylast.trans hlt
    · rw [hitems] at hmem hfront
      rcases List.mem_append.mp hmem with hmem | hmem
      · exact lt_asymm hlt ((List.pairwise_append.mp hfront).2.2 item hmem last List.mem_cons_self)
      · obtain rfl := List.mem_singleton.mp hmem
        exact lt_irrefl _ hlt
  · rintro ⟨ha, hn⟩
    have hmem := (hp.mem_remaining item).mpr ⟨hi, ha⟩
    rw [← htail] at hmem
    exact hcross last hlast item ((List.mem_append.mp hmem).resolve_left hn)

end PageOf

/-- What a walk gives of an event that stays: the event once, if it is behind the cursor from which
the walk starts, and nothing otherwise. -/
theorem Walk.filter_id {visits : List Visit} {events : List Event}
    (hw : Walk c source group visits events) (hserves : ∀ v ∈ visits, c.Serves v.memory)
    (hsteady : ∀ v ∈ visits, c.Steady v.memory v.now group v.request)
    (hlive : ∀ v ∈ visits, v.memory.get? c.live id = some item)
    (hrange : ∀ v ∈ visits, c.InRange v.memory v.now group v.request item) :
    ∀ v ∈ visits.head?,
      (Ahead v.request item → ∃ e, Event.ofItem item = .ok e ∧ events.filter (·.id = id) = [e]) ∧
      (¬ Ahead v.request item → events.filter (·.id = id) = []) := by
  induction hw with
  | @last v events w s h =>
    rintro _ ⟨⟩
    obtain ⟨hs, -⟩ := List.forall_mem_cons.mp hserves
    obtain ⟨hst, -⟩ := List.forall_mem_cons.mp hsteady
    obtain ⟨hl, -⟩ := List.forall_mem_cons.mp hlive
    obtain ⟨hr, -⟩ := List.forall_mem_cons.mp hrange
    obtain ⟨items, remaining, hp⟩ := (page_ensures hs hst w).of_run h
    have hmem : item ∈ items ↔ Ahead v.request item := by
      rw [hp.all_of_none rfl, hp.mem_remaining]
      exact and_iff_right hr
    refine ⟨fun ha => ?_, fun ha => hp.filter_of_notMem hs hl (mt hmem.mp ha)⟩
    obtain ⟨e, he⟩ := exists_event hp.decoded (hmem.mpr ha)
    exact ⟨e, he, hp.filter_of_mem hs hl (hmem.mpr ha) he⟩
  | @next v v' visits events rest w s h hw ih =>
    rintro _ ⟨⟩
    obtain ⟨hs, hserves⟩ := List.forall_mem_cons.mp hserves
    obtain ⟨hst, hsteady⟩ := List.forall_mem_cons.mp hsteady
    obtain ⟨hl, hlive⟩ := List.forall_mem_cons.mp hlive
    obtain ⟨hr, hrange⟩ := List.forall_mem_cons.mp hrange
    obtain ⟨items, remaining, hp⟩ := (page_ensures hs hst w).of_run h
    obtain ⟨hahead, hbehind⟩ := ih hserves hsteady hlive hrange v' rfl
    have hnext := hp.ahead_next_iff rfl hr
    rw [List.filter_append]
    constructor
    · intro ha
      by_cases hi : item ∈ items
      · obtain ⟨e, he⟩ := exists_event hp.decoded hi
        refine ⟨e, he, ?_⟩
        rw [hp.filter_of_mem hs hl hi he, hbehind fun hn => (hnext.mp hn).2 hi, List.append_nil]
      · obtain ⟨e, he, hrest⟩ := hahead (hnext.mpr ⟨ha, hi⟩)
        exact ⟨e, he, by rw [hp.filter_of_notMem hs hl hi, hrest, List.nil_append]⟩
    · intro ha
      have hi : item ∉ items := fun hi =>
        ha ((hp.mem_remaining item).mp (hp.prefix_remaining.subset hi)).2
      rw [hp.filter_of_notMem hs hl hi, hbehind fun hn => ha (hnext.mp hn).1, List.append_nil]

/-- An event of the group that stays unchanged and in the range through a whole walk is given
exactly once, if each cursor names the place of an event in the range. -/
theorem walk_returns_once {visits : List Visit} {events : List Event}
    (hw : Walk c source group visits events)
    (hstart : ∀ v ∈ visits.head?, v.request.cursor = none)
    (hserves : ∀ v ∈ visits, c.Serves v.memory)
    (hsteady : ∀ v ∈ visits, c.Steady v.memory v.now group v.request)
    (hlive : ∀ v ∈ visits, v.memory.get? c.live id = some item)
    (hgroup : item.text? groupName = some group)
    (hrange : ∀ v ∈ visits, (item.text? dateName).any (condition v.now v.request).holds = true) :
    ∃ e, Event.ofItem item = .ok e ∧ events.filter (·.id = id) = [e] := by
  have hin : ∀ v ∈ visits, c.InRange v.memory v.now group v.request item := fun v hv =>
    ⟨Table.mem_items.mpr ⟨id, hlive v hv⟩, hgroup, hrange v hv⟩
  have hfilter := hw.filter_id hserves hsteady hlive hin
  cases hw with
  | @last v events w s h =>
    refine (hfilter v rfl).1 fun key hkey => ?_
    rw [startKey, hstart v rfl] at hkey
    cases hkey
  | @next v v' visits events rest w s h hw =>
    refine (hfilter v rfl).1 fun key hkey => ?_
    rw [startKey, hstart v rfl] at hkey
    cases hkey

section Sample

open Import

/-- An event of the first of May, and one of the first of June. -/
def mayItem : Item := sampleItem "x" "a" "2025-05-01T10:00:00Z"
def juneItem : Item := sampleItem "y" "a" "2025-06-01T10:00:00Z"

def mayEvent : Event := { id := "x", groupId := "a", dateTime := some (sampleInstant 1746093600) }
def juneEvent : Event := { id := "y", groupId := "a", dateTime := some (sampleInstant 1748772000) }

/-- A source that is never asked. -/
def silentSource : Source Unit := fun _ _ w => (none, w)

/-- The request for the first event. -/
def firstVisit : Visit := ⟨sampleNow, sampleMemory [mayItem, juneItem] {}, { limit := some 1 }⟩

/-- The request for what follows the event of May. -/
def nextRequest : PageRequest :=
  { cursor := some "eA==.YQ==.MjAyNS0wNS0wMVQxMDowMDowMFo=", limit := some 1 }

/-- A day later; an event of another group has come. -/
def secondVisit : Visit :=
  ⟨sampleInstant 1743595200, sampleMemory [mayItem, juneItem, sampleItem "z" "b" ""] {},
    nextRequest⟩

/-- A day later; the event of May is gone. -/
def lateVisit : Visit := ⟨sampleInstant 1743595200, sampleMemory [juneItem] {}, nextRequest⟩

theorem serves_sampleMemory {items : List Item}
    (hs : ∀ item ∈ (sampleMemory items {}).items sampleCatalogue.live, Fields.Sorted item)
    (hschema : (sampleMemory items {}).schema = sampleSchema) :
    sampleCatalogue.Serves (sampleMemory items {}) where
  live_key := by
    rw [hschema]
    rfl
  index_in := by
    rw [hschema]
    rfl
  keyed := by
    have hk := keyed_sampleMemory items {} sampleCatalogue.live
    rw [hschema] at hk
    exact hk
  sorted := hs
  pageSize_pos := by
    rw [hschema]
    decide

theorem page_firstVisit :
    ∃ s, (sampleCatalogue.page firstVisit.now "a" firstVisit.request).run.run
      (answer silentSource) (firstVisit.memory, ()) =
        (.done (.ok ⟨[mayEvent], some nextRequest⟩), s) :=
  ⟨_, page_run_of_sorted rfl rfl rfl (by decide) rfl ()⟩

theorem page_secondVisit :
    ∃ s, (sampleCatalogue.page secondVisit.now "a" secondVisit.request).run.run
      (answer silentSource) (secondVisit.memory, ()) = (.done (.ok ⟨[juneEvent], none⟩), s) :=
  ⟨_, page_run_of_sorted rfl rfl rfl (by decide) rfl ()⟩

theorem page_lateVisit :
    ∃ s, (sampleCatalogue.page lateVisit.now "a" lateVisit.request).run.run
      (answer silentSource) (lateVisit.memory, ()) = (.done (.ok ⟨[], none⟩), s) :=
  ⟨_, page_run_of_sorted rfl rfl rfl (by decide) rfl ()⟩

theorem walk_returns_once_sample :
    Walk sampleCatalogue silentSource "a" [firstVisit, secondVisit] [mayEvent, juneEvent] ∧
      ∃ e, Event.ofItem juneItem = .ok e ∧ [mayEvent, juneEvent].filter (·.id = "y") = [e] := by
  obtain ⟨s, hs⟩ := page_firstVisit
  obtain ⟨s', hs'⟩ := page_secondVisit
  have hw : Walk sampleCatalogue silentSource "a" [firstVisit, secondVisit] [mayEvent, juneEvent] :=
    .next hs (.last hs')
  refine ⟨hw, walk_returns_once hw ?_ ?_ ?_ ?_ rfl ?_⟩
  · rintro _ ⟨⟩
    rfl
  · simp only [List.forall_mem_cons, List.not_mem_nil, false_implies, implies_true, and_true]
    exact ⟨serves_sampleMemory (by decide +kernel) rfl, serves_sampleMemory (by decide +kernel) rfl⟩
  · simp only [List.forall_mem_cons, List.not_mem_nil, false_implies, implies_true, and_true]
    refine ⟨fun key hkey => (by cases hkey), fun key hkey => ?_⟩
    cases hkey
    refine ⟨mayItem, ⟨List.mem_cons_self, rfl, by decide +kernel⟩, rfl, rfl⟩
  · simp only [List.forall_mem_cons, List.not_mem_nil, false_implies, implies_true, and_true]
    exact ⟨rfl, rfl⟩
  · decide +kernel

/-- The event of June stays live and in the range, but the walk ends without it, since the event
that the cursor names is gone. -/
theorem walk_loses_event :
    Walk sampleCatalogue silentSource "a" [firstVisit, lateVisit] [mayEvent] ∧
      firstVisit.request = { limit := some 1 } ∧
      (∀ v ∈ [firstVisit, lateVisit], v.memory.get? sampleCatalogue.live "y" = some juneItem ∧
        juneItem.text? groupName = some "a" ∧
        (juneItem.text? dateName).any (condition v.now v.request).holds = true) ∧
      Event.ofItem juneItem = .ok juneEvent ∧ juneEvent ∉ [mayEvent] := by
  obtain ⟨s, hs⟩ := page_firstVisit
  obtain ⟨s', hs'⟩ := page_lateVisit
  refine ⟨.next hs (.last hs'), rfl, ?_, rfl, by decide⟩
  simp only [List.forall_mem_cons, List.not_mem_nil, false_implies, implies_true, and_true]
  exact ⟨⟨rfl, rfl, by decide +kernel⟩, rfl, rfl, by decide +kernel⟩

end Sample

end Catalogue

end GroupCalendar
