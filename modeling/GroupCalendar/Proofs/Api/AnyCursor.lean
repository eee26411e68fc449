import GroupCalendar.Proofs.Api.Agreement
import GroupCalendar.Proofs.Api.NextPage
import GroupCalendar.Proofs.Store.Pages

/-! # Pages for any cursor

A cursor comes from outside and can name anything: an event of another group, one that is gone or
one that never was. It decides only how many of the events in the range are left out before the
page begins. What the page shows, its order and its next page do not depend on who made the cursor.
-/

namespace GroupCalendar

theorem Cursor.decodePart_error {part : List Char} {e : EventsError}
    (h : decodePart part = .error e) : e = .invalidCursor := by
  rw [decodePart] at h
  split at h
  · cases h
  · exact (Except.error.inj h).symm

theorem Record.error_of_bind {ε α β : Type} {x : Except ε α} {f : α → Except ε β} {e : ε}
    (h : x >>= f = .error e) : x = .error e ∨ ∃ a, f a = .error e := by
  cases x with
  | error e' =>
    cases h
    exact .inl rfl
  | ok a => exact .inr ⟨a, h⟩

/-- There is one reason for which a cursor is refused. -/
theorem Cursor.decode_error {cursor : String} {e : EventsError} (h : decode cursor = .error e) :
    e = .invalidCursor := by
  rw [decode] at h
  split at h
  · obtain h | ⟨id, h⟩ := Record.error_of_bind h
    · exact decodePart_error h
    obtain h | ⟨group, h⟩ := Record.error_of_bind h
    · exact decodePart_error h
    obtain h | ⟨date, h⟩ := Record.error_of_bind h
    · exact decodePart_error h
    · cases h
  · exact (Except.error.inj h).symm

namespace Catalogue

open Store Service

variable {ω : Type} {source : Source ω} {c : Catalogue} {m : Memory} {now : Instant}
  {group : String} {r : PageRequest}

/-- A limit below one is refused before anything is asked, whatever the cursor is. -/
theorem page_of_limit {limit : Int} (hl : r.limit = some limit) (hlt : limit < 1) :
    (c.page now group r).run = .done (.error .invalidLimit) := by
  have hq : c.pageQuery now group r = .error .invalidLimit := by
    rw [pageQuery, hl, if_pos (by simp [hlt])]
    rfl
  rw [page, hq]
  rfl

/-- A cursor that cannot be read is refused before anything is asked. -/
theorem page_of_cursor {cursor : String} {e : EventsError}
    (hl : ∀ limit, r.limit = some limit → 1 ≤ limit)
    (hr : r.cursor = some cursor) (hne : cursor ≠ "") (he : Cursor.decode cursor = .error e) :
    (c.page now group r).run = .done (.error .invalidCursor) := by
  have hlimit : r.limit.any (· < 1) = false := by
    cases h : r.limit with
    | none => rfl
    | some limit => simpa using hl limit h
  have hstart : startKey r = .error .invalidCursor := by
    rw [startKey, hr]
    dsimp only
    rw [if_neg (by simpa using hne), he, Cursor.decode_error he]
    rfl
  have hq : c.pageQuery now group r = .error .invalidCursor := by
    rw [pageQuery, hlimit, if_neg Bool.false_ne_true, hstart]
    rfl
  rw [page, hq]
  rfl

/-- A page with the stored items that its events are read from. -/
structure Shows (c : Catalogue) (m : Memory) (now : Instant) (group : String) (r : PageRequest)
    (page : EventsPage) (items : List Item) : Prop where
  read : List.Forall₂ (fun item e => Event.ofItem item = .ok e) items page.events
  live : ∀ item ∈ items, item ∈ m.items c.live
  group_eq : ∀ e ∈ page.events, e.groupId = group
  range : ∀ item ∈ items, ∃ date, item.text? dateName = some date ∧ (condition now r).Admits date
  sorted : items.Pairwise fun a b => place a < place b
  limited : ∀ limit, r.limit = some limit → (page.events.length : Int) ≤ limit
  /-- Another page is named exactly if events in the range stand behind the last one. -/
  next_iff : page.next.isSome ↔ ∃ last, items.getLast? = some last ∧
    ∃ item, c.InRange m now group r item ∧ place last < place item
  /-- It is asked for with the same range and limit and behind the last event. -/
  next_eq : ∀ next, page.next = some next → ∃ item last date cursor,
    items.getLast? = some item ∧ page.events.getLast? = some last ∧
      item.text? dateName = some date ∧ next = { r with cursor := some cursor } ∧
      Cursor.decode cursor = .ok [(dateName, .text date), (groupName, .text last.groupId),
        (idName, .text last.id)]

theorem inRange_iff {item : Item} : c.InRange m now group r item ↔
    item ∈ m.items c.live ∧ item.text? groupName = some group ∧
      ∃ date, item.text? dateName = some date ∧ (condition now r).Admits date := by
  rw [InRange, Option.any_eq_true]
  simp only [Condition.holds_iff]

/-- What is cut off a sorted list behind a part of it are the items behind the last of the part. -/
theorem mem_back_iff {front items back : List Item} {last item : Item}
    (hsorted : (front ++ (items ++ back)).Pairwise fun a b => place a < place b)
    (hlast : items.getLast? = some last) (hi : item ∈ front ++ (items ++ back)) :
    item ∈ back ↔ place last < place item := by
  obtain ⟨init, rfl⟩ := List.getLast?_eq_some_iff.mp hlast
  have hmem : last ∈ init ++ [last] := List.mem_append_right _ List.mem_cons_self
  obtain ⟨-, hrest, hfront⟩ := List.pairwise_append.mp hsorted
  obtain ⟨hitems, -, hback⟩ := List.pairwise_append.mp hrest
  refine ⟨hback last hmem item, fun hlt => ?_⟩
  rcases List.mem_append.mp hi with hi | hi
  · exact absurd (hfront item hi last (List.mem_append_left _ hmem)) hlt.asymm
  rcases List.mem_append.mp hi with hi | hi
  · rcases List.mem_append.mp hi with hi | hi
    · exact absurd ((List.pairwise_append.mp hitems).2.2 item hi last List.mem_cons_self) hlt.asymm
    · exact absurd hlt (List.mem_singleton.mp hi ▸ lt_irrefl _)
  · exact hi

theorem back_ne_nil_iff {front items back : List Item} (hne : back ≠ [] → items ≠ [])
    (hsorted : (front ++ (items ++ back)).Pairwise fun a b => place a < place b) :
    back ≠ [] ↔ ∃ last, items.getLast? = some last ∧
      ∃ item, item ∈ front ++ (items ++ back) ∧ place last < place item := by
  constructor
  · intro hback
    obtain ⟨item, hi⟩ := List.exists_mem_of_ne_nil back hback
    have hmem := List.mem_append_right front (List.mem_append_right items hi)
    have hlast := List.getLast?_eq_some_getLast (hne hback)
    exact ⟨_, hlast, item, hmem, (mem_back_iff hsorted hlast hmem).mp hi⟩
  · rintro ⟨last, hlast, item, hmem, hlt⟩
    exact List.ne_nil_of_mem ((mem_back_iff hsorted hlast hmem).mpr hlt)

theorem limit_of_pageQuery {p : Query × Option Item} (h : c.pageQuery now group r = .ok p)
    {limit : Int} (hl : r.limit = some limit) : 1 ≤ limit := by
  rw [pageQuery, hl] at h
  split at h
  · cases h
  · next hlt => simpa using hlt

theorem isSome_next {p : Page} {page : EventsPage} (h : toPage r p = .ok page) :
    page.next.isSome = p.lastKey.isSome := by
  have hnext := (toPage_eq_ok h).2
  cases hkey : p.lastKey with
  | none =>
    rw [hkey] at hnext
    rw [hnext]
    rfl
  | some key =>
    rw [hkey] at hnext
    obtain ⟨cursor, -, hsome⟩ := hnext
    rw [hsome]
    rfl

/-- A page names the last of its events in the request for what follows it. -/
theorem next_of_toPage (hs : c.Serves m) {q : Query} {start : Option Item} {p : Page}
    {page : EventsPage} (hp : (m.query q start).1 = .ok p) (hlive : ∀ item ∈ p.items,
      item ∈ m.items c.live) (h : toPage r p = .ok page) :
    ∀ next, page.next = some next → ∃ item last date cursor,
      p.items.getLast? = some item ∧ page.events.getLast? = some last ∧
        item.text? dateName = some date ∧ next = { r with cursor := some cursor } ∧
        Cursor.decode cursor = .ok [(dateName, .text date), (groupName, .text last.groupId),
          (idName, .text last.id)] := by
  intro next hnext
  obtain ⟨hread, hkeyed⟩ := toPage_eq_ok h
  obtain ⟨-, hlastKey⟩ := Memory.query_eq_ok hp
  obtain ⟨key, hkey⟩ : ∃ key, p.lastKey = some key :=
    Option.isSome_iff_exists.mp (by rw [← isSome_next h, hnext]; rfl)
  rw [hkey] at hkeyed hlastKey
  obtain ⟨cursor, hcursor, hsome⟩ := hkeyed
  split at hlastKey
  · obtain ⟨item, hitem, rfl⟩ := Option.map_eq_some_iff.mp hlastKey.symm
    obtain ⟨last, hlast, he⟩ := getLast?_of_forall₂ hread hitem
    obtain ⟨id, group', date, hid, hgroup, hdate, hdecode⟩ := Cursor.decode_encode hcursor
    have hsorted := hs.sorted item (hlive item (List.mem_of_getLast? hitem))
    replace hid := Schema.text?_of_resumeKey hid
    replace hgroup := Schema.text?_of_resumeKey hgroup
    rw [Event.text?_of_ofItem hsorted he] at hid
    rw [Event.groupText?_of_ofItem hsorted he] at hgroup
    cases hid
    cases hgroup
    exact ⟨item, last, date, cursor, hitem, hlast, Schema.text?_of_resumeKey hdate,
      Option.some.inj (hnext.symm.trans hsome), hdecode⟩
  · cases hlastKey

theorem shows_of_ok (hs : c.Serves m) {q : Query} {start : Option Item} {p : Page}
    {page : EventsPage} (hq : c.pageQuery now group r = .ok (q, start))
    (hp : (m.query q start).1 = .ok p) (hpage : toPage r p = .ok page) :
    c.Shows m now group r page p.items := by
  have hlimit : ∀ limit, r.limit = some limit → 1 ≤ limit := fun _ => limit_of_pageQuery hq
  obtain ⟨-, rfl⟩ := pageQuery_eq_ok hq
  obtain ⟨hread, -⟩ := toPage_eq_ok hpage
  obtain ⟨front, back, hshown, -, hlength, hback⟩ := Memory.exists_matching_eq hs.pageSize_pos hp
  replace hshown : c.shown m now group r = front ++ (p.items ++ back) := hshown
  have hsorted : (c.shown m now group r).Pairwise fun a b => place a < place b := sorted_shown hs
  have hin : ∀ item, item ∈ front ++ (p.items ++ back) ↔ c.InRange m now group r item :=
    fun item => by rw [← hshown, mem_shown hs]
  rw [hshown] at hsorted
  have hitems : ∀ item ∈ p.items, c.InRange m now group r item := fun item hi =>
    (hin item).mp (List.mem_append_right _ (List.mem_append_left _ hi))
  have hnext := next_of_toPage hs hp (fun item hi => (hitems item hi).1) hpage
  refine
    { read := hread
      live := fun item hi => (hitems item hi).1
      group_eq := ?_
      range := fun item hi => (inRange_iff.mp (hitems item hi)).2.2
      sorted := (List.pairwise_append.mp (List.pairwise_append.mp hsorted).2.1).1
      limited := ?_
      next_iff := ?_
      next_eq := hnext }
  · intro e he
    obtain ⟨item, hi, hitem⟩ := exists_item hread he
    have hgroup := Event.groupText?_of_ofItem (hs.sorted item (hitems item hi).1) hitem
    exact Option.some.inj (hgroup.symm.trans (hitems item hi).2.1)
  · intro limit hl
    have hasked : (c.shownQuery now group r).limit = some limit := hl
    have hle := (m.schema.pageLimit_le _).2 limit hasked
    have hpos := hlimit limit hl
    rw [← hread.length_eq]
    omega
  · have hne : back ≠ [] → p.items ≠ [] := fun hback' => by
      obtain ⟨next, hsome⟩ := Option.isSome_iff_exists.mp
        ((isSome_next hpage).trans (hback.mpr hback'))
      obtain ⟨last, -, -, -, hlast, -⟩ := hnext next hsome
      exact List.ne_nil_of_mem (List.mem_of_getLast? hlast)
    rw [isSome_next hpage, hback, back_ne_nil_iff hne hsorted]
    simp only [hin]

/-- Whatever the cursor is, a limit below one and then a cursor that cannot be read are refused
without a request to the store, and a page that is given shows events of the group in the range. -/
theorem page_sound (hs : c.Serves m) (now : Instant) (group : String) (r : PageRequest) :
    (∀ limit, r.limit = some limit → limit < 1 →
      (c.page now group r).run = .done (.error .invalidLimit)) ∧
    (∀ cursor e, (∀ limit, r.limit = some limit → 1 ≤ limit) → r.cursor = some cursor →
      cursor ≠ "" → Cursor.decode cursor = .error e →
        (c.page now group r).run = .done (.error .invalidCursor)) ∧
    ∀ (source : Source ω) (w : ω) (page : EventsPage) (s : Memory × ω),
      (c.page now group r).run.run (answer source) (m, w) = (.done (.ok page), s) →
        ∃ items, c.Shows m now group r page items := by
  refine ⟨fun limit => page_of_limit, fun cursor e => page_of_cursor, ?_⟩
  intro source w page s h
  obtain ⟨q, start, p, hq, hp, hpage⟩ := (page_ensures_query w).of_run h
  exact ⟨p.items, shows_of_ok hs hq hp hpage⟩

section Sample

open Import

/-- A cursor that names an event of May, in another group and without a date. -/
def forgedRequest : PageRequest := { cursor := some "eA==.Yg==.", limit := some 1 }

/-- Two events of the group and one of the other. -/
def forgedStore : Memory := sampleMemory [mayItem, juneItem, sampleItem "z" "b" ""] {}

theorem page_forgedRequest :
    ∃ s, (sampleCatalogue.page sampleNow "a" forgedRequest).run.run (answer silentSource)
      (forgedStore, ()) = (.done (.ok ⟨[juneEvent], none⟩), s) :=
  ⟨_, page_run_of_sorted rfl rfl rfl (by decide) rfl ()⟩

theorem page_sound_forged :
    sampleCatalogue.Serves forgedStore ∧
      (∃ items, sampleCatalogue.Shows forgedStore sampleNow "a" forgedRequest
        ⟨[juneEvent], none⟩ items) ∧
      (sampleCatalogue.page sampleNow "a" { forgedRequest with limit := some 0 }).run =
        .done (.error .invalidLimit) ∧
      (sampleCatalogue.page sampleNow "a" { cursor := some "eA==" }).run =
        .done (.error .invalidCursor) := by
  have hs : sampleCatalogue.Serves forgedStore := serves_sampleMemory (by decide) rfl
  obtain ⟨s, h⟩ := page_forgedRequest
  refine ⟨hs, (page_sound hs sampleNow "a" forgedRequest).2.2 silentSource () _ s h, ?_, ?_⟩
  · exact (page_sound (ω := Unit) hs sampleNow "a" _).1 0 rfl (by decide)
  · exact (page_sound (ω := Unit) hs sampleNow "a" _).2.1 "eA==" .invalidCursor (by simp) rfl
      (by decide) rfl

end Sample

end Catalogue

end GroupCalendar
