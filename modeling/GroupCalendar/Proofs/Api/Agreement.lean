import GroupCalendar.Proofs.Api.Walk
import GroupCalendar.Proofs.Store.Quiet

/-! # Agreement of the three reads

A page, the next event and an event by its id are read along different ways: as a range of the
index, as the first item of such a range, and under a key. On one store they show the same events.
-/

namespace GroupCalendar

namespace Store

/-- Whatever the limit, a page has a first item if pages hold any. -/
theorem Schema.min_one_pageLimit (s : Schema) (q : Query) :
    min 1 (s.pageLimit q) = min 1 s.pageSize := by
  unfold pageLimit
  split <;> omega

theorem Schema.text?_of_isMatch {s : Schema} {q : Query} {item : Item}
    (h : s.isMatch q item = true) : item.text? q.partitionName = some q.partitionValue := by
  rw [isMatch, Bool.and_eq_true, Bool.and_eq_true] at h
  exact of_decide_eq_true h.1.1

end Store

namespace Catalogue

open Store Service Import

variable {ω : Type} {source : Source ω} {c : Catalogue} {m m' : Memory} {now : Instant}
  {group : String} {r : PageRequest} {page : EventsPage} {w : ω} {s : Memory × ω}

theorem eventById_run (hq : m.Quiet) (hlive : m.schema.keyName c.live = idName) {id : String}
    {item : Item} {e : Event} (hitem : m.get? c.live id = some item)
    (he : Event.ofItem item = .ok e) (w : ω) :
    ((c.eventById group id).run.run (answer source) (m, w)).1 =
      .done (.ok (if e.groupId = group then some e else none)) := by
  rw [eventById]
  change (Program.run (S := signature) (answer source)
    (ExceptT.bindCont _ ((m.getItem c.live (Item.key idName id)).1.mapError EventsError.store))
    ((m.getItem c.live (Item.key idName id)).2, w)).1 = _
  rw [hq.getItem hlive, hitem]
  change (Program.run (S := signature) (answer source) (ExceptT.bindCont _ (decodeEvent item))
    _).1 = _
  rw [decodeEvent, he]
  rfl

theorem nextEvent_run (hq : m.Quiet) {events : List Event}
    (h : List.Forall₂ (fun item e => Event.ofItem item = .ok e)
      ((c.shown m now group {}).take (min 1 m.schema.pageSize)) events) (w : ω) :
    ((c.nextEvent now group).run.run (answer source) (m, w)).1 = .done (.ok events.head?) := by
  rw [nextEvent]
  change (Program.run (S := signature) (answer source)
    (ExceptT.bindCont _ ((m.query _ none).1.mapError EventsError.store))
    ((m.query _ none).2, w)).1 = _
  rw [hq.query]
  generalize hp : Memory.pageFrom m.schema _ none _ = p
  obtain ⟨items, lastKey⟩ := p
  have hitems : (c.shown m now group {}).take (min 1 m.schema.pageSize) = items :=
    congrArg Page.items hp
  rw [hitems] at h
  cases h with
  | nil => rfl
  | @cons item e items events he _ =>
    change (Program.run (S := signature) (answer source)
      (Task.ofExcept (some <$> decodeEvent item)).run _).1 = _
    rw [decodeEvent, he]
    rfl

theorem exists_item {items : List Item} {events : List Event}
    (h : List.Forall₂ (fun item e => Event.ofItem item = .ok e) items events) {e : Event}
    (he : e ∈ events) : ∃ item ∈ items, Event.ofItem item = .ok e := by
  induction h with
  | nil => cases he
  | @cons item e' items events hi _ ih =>
    rcases List.mem_cons.mp he with rfl | he
    · exact ⟨item, List.mem_cons_self, hi⟩
    · obtain ⟨item', hmem, hi'⟩ := ih he
      exact ⟨item', List.mem_cons_of_mem _ hmem, hi'⟩

/-- An event that is shown stands under its id and is one of the group. -/
theorem found_of_mem_shown (hkeyed : (m.table c.live).Keyed idName)
    (hsorted : ∀ item ∈ m.items c.live, Fields.Sorted item) {item : Item} {e : Event}
    (hmem : item ∈ c.shown m now group r) (he : Event.ofItem item = .ok e) :
    m.get? c.live e.id = some item ∧ e.groupId = group := by
  obtain ⟨hitem, hmatch⟩ := Schema.mem_matching.mp hmem
  constructor
  · obtain ⟨key, hkey⟩ := Table.mem_items.mp hitem
    have hid := hkeyed key item hkey
    rw [Event.text?_of_ofItem (hsorted item hitem) he] at hid
    obtain rfl := Option.some.inj hid
    exact hkey
  · have hpartition : item.text? groupName = some group := Schema.text?_of_isMatch hmatch
    rw [Event.groupText?_of_ofItem (hsorted item hitem) he] at hpartition
    exact Option.some.inj hpartition

/-- Every event of a page is found under its id, in its group and in no other. The first of the
coming events is the next one. -/
theorem reads_agree (hlive : m.schema.keyName c.live = idName)
    (hkeyed : (m.table c.live).Keyed idName)
    (hsorted : ∀ item ∈ m.items c.live, Fields.Sorted item)
    (hpage : (c.page now group r).run.run (answer source) (m, w) = (.done (.ok page), s))
    (hsame : m.Same m') (hquiet : m'.Quiet) (w' : ω) :
    (∀ e ∈ page.events,
      ((c.eventById group e.id).run.run (answer source) (m', w')).1 = .done (.ok (some e)) ∧
      ∀ other, other ≠ group →
        ((c.eventById other e.id).run.run (answer source) (m', w')).1 = .done (.ok none)) ∧
    (r.before = none → r.after = none → r.cursor = none →
      ((c.nextEvent now group).run.run (answer source) (m', w')).1 =
        .done (.ok page.events.head?)) := by
  obtain ⟨start, hstart, hevents⟩ := page_run_eq_ok hpage
  have hlive' : m'.schema.keyName c.live = idName := by rw [hsame.schema_eq, hlive]
  constructor
  · intro e he
    obtain ⟨item, hmem, hdecode⟩ := exists_item hevents he
    have hshown : item ∈ c.shown m now group r :=
      Schema.mem_of_mem_resume (List.mem_of_mem_take hmem)
    obtain ⟨hfound, hgroup⟩ := found_of_mem_shown hkeyed hsorted hshown hdecode
    rw [← hsame.get?_eq] at hfound
    constructor
    · rw [eventById_run hquiet hlive' hfound hdecode, if_pos hgroup]
    · intro other hother
      rw [eventById_run hquiet hlive' hfound hdecode, if_neg (hgroup.trans_ne hother.symm)]
  · intro hbefore hafter hcursor
    obtain ⟨before, after, cursor, limit⟩ := r
    obtain ⟨rfl, rfl, rfl⟩ : before = none ∧ after = none ∧ cursor = none :=
      ⟨hbefore, hafter, hcursor⟩
    cases hstart
    have hfirst := List.forall₂_take 1 hevents
    rw [List.take_take, Schema.min_one_pageLimit] at hfirst
    change List.Forall₂ _ ((c.shown m now group {}).take (min 1 m.schema.pageSize)) _ at hfirst
    have hshown : c.shown m' now group {} = c.shown m now group {} := by
      rw [shown, shown, hsame.schema_eq, hsame.table_eq]
    rw [← hshown, ← hsame.schema_eq] at hfirst
    rw [nextEvent_run hquiet hfirst, List.head?_take, if_neg Nat.one_ne_zero]

theorem reads_agree_first :
    ((sampleCatalogue.eventById "a" "x").run.run (answer silentSource) (firstVisit.memory, ())).1 =
        .done (.ok (some mayEvent)) ∧
      ((sampleCatalogue.eventById "b" "x").run.run (answer silentSource)
        (firstVisit.memory, ())).1 = .done (.ok none) ∧
      ((sampleCatalogue.nextEvent sampleNow "a").run.run (answer silentSource)
        (firstVisit.memory, ())).1 = .done (.ok (some mayEvent)) := by
  obtain ⟨s, hs⟩ := page_firstVisit
  have hserves : sampleCatalogue.Serves firstVisit.memory :=
    serves_sampleMemory (by decide +kernel) rfl
  obtain ⟨hevents, hnext⟩ := reads_agree hserves.live_key hserves.keyed hserves.sorted hs
    (.refl _) rfl ()
  obtain ⟨hfound, hother⟩ := hevents mayEvent List.mem_cons_self
  exact ⟨hfound, hother "b" (by decide), hnext rfl rfl rfl⟩

end Catalogue

end GroupCalendar
