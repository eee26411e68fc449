import GroupCalendar.Proofs.Api.Unchanged
import GroupCalendar.Proofs.Event.Upserted
import GroupCalendar.Proofs.Time.TextOrder

/-! # Ranges of dates

The bounds of a range are written like the dates that they are compared with, without the fraction
of their second. For dates in whole seconds this makes no difference to a bound that a date has to
exceed, nor to an upper one that it may reach. A strict upper bound excludes all of its second, and
a lower bound that may be reached includes all of it.
-/

namespace GroupCalendar

namespace Instant

variable {a b : Instant}

theorem before_iff : a.before b = true ↔
    a.seconds < b.seconds ∨ a.seconds = b.seconds ∧ a.nanos < b.nanos := by
  rw [before, Bool.or_eq_true, Bool.and_eq_true, decide_eq_true_eq, decide_eq_true_eq,
    decide_eq_true_eq]

/-- A whole second is behind an instant if it is behind the second of the instant. -/
theorem wholeSecond_before_whole (hb : b.wholeSecond = b) :
    a.wholeSecond.before b = true ↔ a.before b = true := by
  refine ⟨fun h => ?_, fun h => hb ▸ wholeSecond_before_of_before hb h⟩
  have hnanos : b.leap * nanosPerSecond = b.nanos := congrArg Instant.nanos hb
  have hleap := b.leap_le
  rw [← hb, wholeSecond_before_iff] at h
  rw [before_iff]
  refine h.imp_right fun ⟨hs, hlt⟩ => ⟨hs, ?_⟩
  have ha : ¬ nanosPerSecond ≤ a.nanos := fun hn => by
    rw [leap, if_pos hn] at hlt
    omega
  simp only [nanosPerSecond] at *
  omega

/-- The text of a whole second is behind that of any instant before it, also of one before the year
zero. -/
theorem formatStoredDate_lt_whole (ha : a.date.1 ≤ 9999) (hb : b.InFourDigits)
    (hw : b.wholeSecond = b) : formatStoredDate a < formatStoredDate b ↔ a.before b = true := by
  by_cases hfour : a.InFourDigits
  · rw [formatStoredDate_lt_iff hfour hb, hw, wholeSecond_before_whole hw]
  · have hday : a.day < b.day := by
      by_contra hle
      have hyear := year_le_of_day_le (Int.not_lt.mp hle)
      exact hfour ⟨hb.1.trans hyear, ha⟩
    have hbefore : a.before b = true := before_iff.mpr (.inl (by
      simp only [day] at hday
      omega))
    exact iff_of_true (formatStoredDate_lt_of_before hb (wholeSecond_before_of_before hw hbefore))
      hbefore

theorem formatStoredDate_inj (ha : a.InFourDigits) (hb : b.InFourDigits)
    (hwa : a.wholeSecond = a) (hwb : b.wholeSecond = b) :
    formatStoredDate a = formatStoredDate b ↔ a = b := by
  refine ⟨fun h => ?_, fun h => h ▸ rfl⟩
  have hread := readStoredDate_formatStoredDate ha
  rw [h, readStoredDate_formatStoredDate hb, hwa, hwb] at hread
  exact (Except.ok.inj hread).symm

end Instant

/-- The first event is the earlier one, or at the same time the one with the lesser id. -/
def Event.Precedes (a b : Event) : Prop :=
  ∃ s t, a.dateTime = some s ∧ b.dateTime = some t ∧ (s.before t = true ∨ s = t ∧ a.id < b.id)

/-- The dates that a request asks for. An upper bound alone counts from the beginning of its second
on, and so does the lower one of two bounds. -/
def PageRequest.Asks (r : PageRequest) (now t : Instant) : Prop :=
  match r.after, r.before with
  | none, none => now.before t = true
  | some after, none => after.before t = true
  | none, some before => t.before before.wholeSecond = true
  | some after, some before => ¬ t.before after.wholeSecond = true ∧ ¬ before.before t = true

namespace Catalogue

open Store Service Instant

variable {ω : Type} {c : Catalogue} {m : Memory} {now : Instant} {group : String} {r : PageRequest}

/-- Bounds in years of four digits, and a clock that is not later. -/
structure Bounded (now : Instant) (r : PageRequest) : Prop where
  now : now.date.1 ≤ 9999
  after : ∀ t ∈ r.after, t.InFourDigits
  before : ∀ t ∈ r.before, t.InFourDigits

/-- The text of a date satisfies the condition if the request asks for the date. -/
theorem admits_iff (hb : Bounded now r) {t : Instant} (ht : t.InFourDigits)
    (hw : t.wholeSecond = t) :
    (condition now r).Admits (formatStoredDate t) ↔ r.Asks now t := by
  have hlow : ∀ {a : Instant}, a.InFourDigits →
      (formatStoredDate a < formatStoredDate t ↔ a.before t = true) := fun ha =>
    formatStoredDate_lt_whole ha.2 ht hw
  have hhigh : ∀ {b : Instant}, b.InFourDigits →
      (formatStoredDate t < formatStoredDate b ↔ t.before b.wholeSecond = true) := fun hb => by
    rw [formatStoredDate_lt_iff ht hb, hw]
  obtain ⟨before, after, cursor, limit⟩ := r
  cases after with
  | none =>
    cases before with
    | none => exact formatStoredDate_lt_whole hb.now ht hw
    | some before => exact hhigh (hb.before before rfl)
  | some after =>
    cases before with
    | none => exact hlow (hb.after after rfl)
    | some before =>
      refine and_congr ?_ ?_
      · rw [← not_lt, hhigh (hb.after after rfl)]
      · rw [← not_lt, hlow (hb.before before rfl)]

/-- The live events of a group. -/
def Lists (c : Catalogue) (m : Memory) (group : String) (e : Event) : Prop :=
  e.Precise ∧ e.groupId = group ∧ m.get? c.live e.id = some e.toItem

theorem Filed.serves (h : c.Filed m) (hindex : c.IndexIn m.schema)
    (hpage : 0 < m.schema.pageSize) : c.Serves m where
  live_key := h.live_key
  index_in := hindex
  keyed := h.keyed
  sorted := by
    intro item hi
    obtain ⟨e, -, -, rfl⟩ := h.mem_items_iff.mp hi
    exact e.sorted_toItem
  pageSize_pos := hpage

/-- What is shown are the items of the group's events that the request asks for. -/
theorem Filed.mem_shown_iff (h : c.Filed m) (hs : c.Serves m) (hb : Bounded now r) {item : Item} :
    item ∈ c.shown m now group r ↔ ∃ e : Event, c.Lists m group e ∧ item = e.toItem ∧
      ∃ t, e.dateTime = some t ∧ r.Asks now t := by
  rw [mem_shown hs, InRange, h.mem_items_iff]
  constructor
  · rintro ⟨⟨e, he, hget, rfl⟩, hgroup, hdate⟩
    rw [e.groupText?_toItem, Option.some.injEq] at hgroup
    rw [e.dateText?_toItem, Option.any_eq_true] at hdate
    obtain ⟨text, htext, hk⟩ := hdate
    obtain ⟨t, ht, rfl⟩ := Option.map_eq_some_iff.mp htext
    obtain ⟨hfour, hw⟩ := he t ht
    exact ⟨e, ⟨he, hgroup, hget⟩, rfl, t, ht,
      (admits_iff hb hfour hw).mp (Condition.holds_iff.mp hk)⟩
  · rintro ⟨e, ⟨he, hgroup, hget⟩, rfl, t, ht, hasks⟩
    obtain ⟨hfour, hw⟩ := he t ht
    refine ⟨⟨e, he, hget, rfl⟩, hgroup ▸ e.groupText?_toItem, ?_⟩
    rw [e.dateText?_toItem, ht]
    exact Condition.holds_iff.mpr ((admits_iff hb hfour hw).mpr hasks)

/-- Events are read back from their items in a list. -/
theorem eq_map_toItem {items : List Item} {events : List Event}
    (hitems : ∀ item ∈ items, ∃ e : Event, e.Precise ∧ item = e.toItem)
    (h : List.Forall₂ (fun item e => Event.ofItem item = .ok e) items events) :
    items = events.map Event.toItem ∧ ∀ e ∈ events, e.Precise := by
  induction h with
  | nil => exact ⟨rfl, by simp⟩
  | @cons item e items events he _ ih =>
    obtain ⟨⟨e', hprecise, rfl⟩, hrest⟩ := List.forall_mem_cons.mp hitems
    obtain rfl := Except.ok.inj (hprecise.ofItem_toItem.symm.trans he)
    obtain ⟨rfl, hevents⟩ := ih hrest
    exact ⟨rfl, List.forall_mem_cons.mpr ⟨hprecise, hevents⟩⟩

/-- The order of places is the order of time. -/
theorem precedes_of_place {a b : Event} {s t : Instant} (ha : a.Precise) (hb : b.Precise)
    (hs : a.dateTime = some s) (ht : b.dateTime = some t) (h : place a.toItem < place b.toItem) :
    a.Precedes b := by
  obtain ⟨hsfour, hsw⟩ := ha s hs
  obtain ⟨htfour, htw⟩ := hb t ht
  rw [place, place, Prod.Lex.toLex_lt_toLex, a.dateText?_toItem, b.dateText?_toItem, hs, ht,
    a.text?_toItem, b.text?_toItem] at h
  refine ⟨s, t, hs, ht, ?_⟩
  rcases h with hlt | ⟨heq, hid⟩
  · left
    exact (formatStoredDate_lt_whole hsfour.2 htfour htw).mp (WithBot.coe_lt_coe.mp hlt)
  · right
    exact ⟨(formatStoredDate_inj hsfour htfour hsw htw).mp (WithBot.coe_injective heq),
      WithBot.coe_lt_coe.mp hid⟩

/-- What is read from the items that are shown, in their order. -/
theorem Filed.shown_eq_map (h : c.Filed m) (hs : c.Serves m) (hb : Bounded now r)
    {events : List Event} (hread : List.Forall₂ (fun item e => Event.ofItem item = .ok e)
      (c.shown m now group r) events) :
    c.shown m now group r = events.map Event.toItem ∧ ∀ e ∈ events, e.Precise := by
  refine eq_map_toItem (fun item hi => ?_) hread
  obtain ⟨e, ⟨he, -⟩, rfl, -⟩ := (h.mem_shown_iff hs hb).mp hi
  exact ⟨e, he, rfl⟩

theorem Filed.mem_events_iff (h : c.Filed m) (hs : c.Serves m) (hb : Bounded now r)
    {events : List Event} (hread : List.Forall₂ (fun item e => Event.ofItem item = .ok e)
      (c.shown m now group r) events) {e : Event} :
    e ∈ events ↔ c.Lists m group e ∧ ∃ t, e.dateTime = some t ∧ r.Asks now t := by
  obtain ⟨hmap, hprecise⟩ := h.shown_eq_map hs hb hread
  constructor
  · intro he
    have hi : e.toItem ∈ c.shown m now group r := by
      rw [hmap]
      exact List.mem_map_of_mem he
    obtain ⟨e', he', heq, hasks⟩ := (h.mem_shown_iff hs hb).mp hi
    obtain rfl := (hprecise e he).toItem_inj he'.1 heq
    exact ⟨he', hasks⟩
  · rintro ⟨he, hasks⟩
    have hi := (h.mem_shown_iff hs hb).mpr ⟨e, he, rfl, hasks⟩
    rw [hmap] at hi
    obtain ⟨e', he', heq⟩ := List.mem_map.mp hi
    obtain rfl := (hprecise e' he').toItem_inj he.1 heq
    exact he'

theorem Filed.sorted_events (h : c.Filed m) (hs : c.Serves m) (hb : Bounded now r)
    {events : List Event} (hread : List.Forall₂ (fun item e => Event.ofItem item = .ok e)
      (c.shown m now group r) events) : events.Pairwise Event.Precedes := by
  obtain ⟨hmap, hprecise⟩ := h.shown_eq_map hs hb hread
  have hsorted : (c.shown m now group r).Pairwise fun a b => place a < place b := sorted_shown hs
  rw [hmap, List.pairwise_map] at hsorted
  refine hsorted.imp_of_mem fun {a b} ha hb' hlt => ?_
  obtain ⟨-, s, hdate, -⟩ := (h.mem_events_iff hs hb hread).mp ha
  obtain ⟨-, t, hdate', -⟩ := (h.mem_events_iff hs hb hread).mp hb'
  exact precedes_of_place (hprecise a ha) (hprecise b hb') hdate hdate' hlt

/-- On an unchanged store and clock, the pages from the first on come to an end. Together they give
exactly the dated events of the group that the request asks for, in the order of time. -/
theorem walk_range (hm : c.Upserted m) (hindex : c.IndexIn m.schema)
    (hpage : 0 < m.schema.pageSize) (hf : m.faults.nextError = none) (hb : Bounded now r)
    (hlimit : ∀ limit ∈ r.limit, 1 ≤ limit) (hcursor : r.cursor = none)
    (group : String) (source : Source ω) (w : ω) :
    (∃ visits events, Walk c source group (⟨now, m, r⟩ :: visits) events ∧
      ∀ v ∈ visits, v.now = now ∧ m.Same v.memory) ∧
    ∀ visits events, Walk c source group (⟨now, m, r⟩ :: visits) events →
      (∀ v ∈ visits, v.now = now ∧ m.Same v.memory) →
        (∀ e, e ∈ events ↔
          c.Lists m group e ∧ ∃ t, e.dateTime = some t ∧ r.Asks now t) ∧
        events.Pairwise Event.Precedes := by
  have hfiled := hm.filed
  have hs := hfiled.serves hindex hpage
  have hstart : startKey r = .ok none := by
    rw [startKey, hcursor]
  have hleft : m.Leaves (c.shownQuery now group r) none (c.shown m now group r) :=
    m.leaves_matching (c.shownQuery now group r)
  constructor
  · have hl : r.limit.any (· < 1) = false := by
      rw [← Bool.not_eq_true, Option.any_eq_true]
      rintro ⟨limit, hlim, hlt⟩
      exact absurd (of_decide_eq_true hlt) (Int.not_lt.mpr (hlimit limit hlim))
    refine exists_walk hs hf hl hstart (fun item hi => ?_) hleft source w
    obtain ⟨e, ⟨he, -⟩, rfl, -⟩ := (hfiled.mem_shown_iff hs hb).mp hi
    exact ⟨e, he.ofItem_toItem⟩
  · intro visits events hw hall
    have hread := hw.forall₂_rest hs (List.forall_mem_cons.mpr ⟨⟨rfl, .refl m⟩, hall⟩) _ rfl
      none _ hstart hleft
    exact ⟨fun e => hfiled.mem_events_iff hs hb hread, hfiled.sorted_events hs hb hread⟩

section Sample

open Import

/-- A store into which the events of May and of June have been put. -/
def rangeStore : Memory :=
  ((sampleCatalogue.upsert [mayEvent, juneEvent]).run.run (answer silentSource)
    (sampleMemory [] {}, ())).2.1

/-- Half a second after the event of May. -/
def halfPast : Instant := (ofUnix? 1746093600 500000000).getD .epoch

def beforeRequest : PageRequest := { before := some halfPast }

def betweenRequest : PageRequest :=
  { after := some halfPast, before := some (sampleInstant 1748772000) }

theorem upserted_rangeStore : sampleCatalogue.Upserted rangeStore :=
  .upsert (.empty rfl rfl) (by decide) silentSource ()

theorem page_before_halfPast :
    ∃ s, (sampleCatalogue.page sampleNow "a" beforeRequest).run.run
      (answer silentSource) (rangeStore, ()) = (.done (.ok ⟨[], none⟩), s) :=
  ⟨_, page_run_of_sorted rfl rfl rfl .nil rfl ()⟩

theorem page_after_halfPast :
    ∃ s, (sampleCatalogue.page sampleNow "a" betweenRequest).run.run
      (answer silentSource) (rangeStore, ()) = (.done (.ok ⟨[mayEvent, juneEvent], none⟩), s) :=
  ⟨_, page_run_of_sorted rfl rfl rfl (by decide) rfl ()⟩

/-- The beginning of the year 10000. -/
def farFuture : Instant := sampleInstant 253402300800

theorem page_farFuture :
    ∃ s, (sampleCatalogue.page farFuture "a" {}).run.run
      (answer silentSource) (rangeStore, ()) = (.done (.ok ⟨[mayEvent, juneEvent], none⟩), s) :=
  ⟨_, page_run_of_sorted rfl rfl rfl (by decide) rfl ()⟩

/-- An event half a second before the upper bound is left out, and with both bounds one half a
second before the lower bound is given. From the year 10000 on past events are given. -/
theorem page_rounds_bounds :
    sampleCatalogue.Upserted rangeStore ∧ sampleCatalogue.Lists rangeStore "a" mayEvent ∧
      (∃ t, mayEvent.dateTime = some t ∧ t.before halfPast = true ∧ t.before farFuture = true) ∧
      Walk sampleCatalogue silentSource "a" [⟨sampleNow, rangeStore, beforeRequest⟩] [] ∧
      Walk sampleCatalogue silentSource "a" [⟨sampleNow, rangeStore, betweenRequest⟩]
        [mayEvent, juneEvent] ∧
      Walk sampleCatalogue silentSource "a" [⟨farFuture, rangeStore, {}⟩]
        [mayEvent, juneEvent] := by
  obtain ⟨s, hs⟩ := page_before_halfPast
  obtain ⟨s', hs'⟩ := page_after_halfPast
  obtain ⟨s'', hs''⟩ := page_farFuture
  exact ⟨upserted_rangeStore, ⟨by decide, rfl, rfl⟩, ⟨_, rfl, by decide, by decide⟩,
    .last hs, .last hs', .last hs''⟩

theorem walk_range_sample :
    sampleCatalogue.Upserted rangeStore ∧ ∃ visits events,
      Walk sampleCatalogue silentSource "a"
        (⟨sampleNow, rangeStore, { betweenRequest with limit := some 1 }⟩ :: visits) events ∧
        mayEvent ∈ events ∧ juneEvent ∈ events ∧ events.Pairwise Event.Precedes := by
  have hb : Bounded sampleNow { betweenRequest with limit := some 1 } :=
    ⟨by decide, by decide, by decide⟩
  obtain ⟨⟨visits, events, hw, hall⟩, hwalks⟩ := walk_range upserted_rangeStore rfl
    (by decide) rfl hb (by simp) rfl "a" silentSource ()
  obtain ⟨hevents, hsorted⟩ := hwalks visits events hw hall
  refine ⟨upserted_rangeStore, visits, events, hw, (hevents _).mpr ?_, (hevents _).mpr ?_, hsorted⟩
  · exact ⟨⟨by decide, rfl, rfl⟩, _, rfl, by decide, by decide⟩
  · exact ⟨⟨by decide, rfl, rfl⟩, _, rfl, by decide, by decide⟩

end Sample

end Catalogue

end GroupCalendar
