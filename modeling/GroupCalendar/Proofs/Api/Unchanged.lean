import GroupCalendar.Proofs.Api.Walk
import GroupCalendar.Proofs.Store.Pages

/-! # Walking through an unchanged store

While neither the clock nor the store changes, the pages of a walk cut what is shown into parts.
Such a walk comes to an end if all that is shown can be read, and its events are those that are
read from what is shown, in the same order.
-/

namespace GroupCalendar

/-- A list is read if each of its elements is. -/
theorem Record.exists_mapM_eq_ok {ε α β : Type} {f : α → Except ε β} {xs : List α}
    (h : ∀ x ∈ xs, ∃ y, f x = .ok y) : ∃ ys, xs.mapM f = .ok ys := by
  induction xs with
  | nil => exact ⟨[], rfl⟩
  | cons x rest ih =>
    obtain ⟨hx, hrest⟩ := List.forall_mem_cons.mp h
    obtain ⟨y, hy⟩ := hx
    obtain ⟨ys, hys⟩ := ih hrest
    rw [List.mapM_cons, hy, hys]
    exact ⟨y :: ys, rfl⟩

/-- A cursor is made of a key with an id, a group and a date. -/
theorem Cursor.exists_encode_eq_ok {key : Item} {id group date : String}
    (hid : key.text? Catalogue.idName = some id)
    (hgroup : key.text? Catalogue.groupName = some group)
    (hdate : key.text? Catalogue.dateName = some date) : ∃ cursor, encode key = .ok cursor := by
  rw [encode, encodePart, hid, encodePart, hgroup, encodePart, hdate]
  exact ⟨_, rfl⟩

theorem Store.Memory.Same.symm {m m' : Memory} (h : m.Same m') : m'.Same m :=
  ⟨h.schema_eq.symm, fun name => (h.table_eq name).symm⟩

/-- Only the text of a key decides what is left behind it. -/
theorem Store.Memory.Leaves.of_text? {m : Memory} {q : Query} {key key' : Item} {rest : List Item}
    (h : m.Leaves q (some key) rest)
    (hkey : key'.text? (m.schema.keyName q.table) = key.text? (m.schema.keyName q.table)) :
    m.Leaves q (some key') rest := by
  obtain ⟨hsuffix, hresume⟩ := h
  refine ⟨hsuffix, ?_⟩
  rw [← hresume, Schema.resume, Schema.resume, hkey]

namespace Catalogue

open Store Service

variable {ω : Type} {source : Source ω} {c : Catalogue} {m m' : Memory} {now : Instant}
  {group : String} {r : PageRequest} {start : Option Item} {rest : List Item} {page : EventsPage}

theorem Serves.of_same (hs : c.Serves m) (h : m.Same m') : c.Serves m' where
  live_key := h.schema_eq ▸ hs.live_key
  index_in := h.schema_eq ▸ hs.index_in
  keyed := h.table_eq c.live ▸ hs.keyed
  sorted := by
    rw [Memory.items, h.table_eq]
    exact hs.sorted
  pageSize_pos := h.schema_eq ▸ hs.pageSize_pos

/-- A page gives the first part of what is left behind its start, and its next request starts where
the rest is left. -/
theorem page_rest (hs : c.Serves m) (hleft : m.Leaves (c.shownQuery now group r) start rest)
    (hstart : startKey r = .ok start) {w : ω} {s : Memory × ω}
    (h : (c.page now group r).run.run (answer source) (m, w) = (.done (.ok page), s)) :
    ∃ items tail, rest = items ++ tail ∧
      List.Forall₂ (fun item e => Event.ofItem item = .ok e) items page.events ∧
      (page.next = none → tail = []) ∧
      ∀ r', page.next = some r' → tail.length < rest.length ∧
        (∃ cursor, r' = { r with cursor := some cursor }) ∧
        ∃ key, startKey r' = .ok (some key) ∧
          m.Leaves (c.shownQuery now group r') (some key) tail := by
  obtain ⟨q, start', p, hq, hp, hpage⟩ := (page_ensures_query w).of_run h
  obtain ⟨hstart', rfl⟩ := pageQuery_eq_ok hq
  obtain rfl : start = start' := Except.ok.inj (hstart.symm.trans hstart')
  obtain ⟨hread, hnext⟩ := toPage_eq_ok hpage
  cases hkey : p.lastKey with
  | none =>
    rw [hkey] at hnext
    refine ⟨p.items, [], ?_, hread, fun _ => rfl, fun r' hr => ?_⟩
    · rw [List.append_nil, hleft.items_eq hp hs.pageSize_pos hkey]
    · exact absurd (hr.symm.trans hnext) (by simp)
  | some key =>
    rw [hkey] at hnext
    obtain ⟨cursor, hcursor, hsome⟩ := hnext
    obtain ⟨tail, hrest, hless, htail⟩ := hleft.exists_tail hp (keyed_shownQuery hs) hkey
    refine ⟨p.items, tail, hrest, hread, fun hnone => ?_, fun r' hr => ?_⟩
    · exact absurd (hnone.symm.trans hsome) (by simp)
    · obtain rfl := Option.some.inj (hr.symm.trans hsome)
      obtain ⟨id, group', date, hid, -, -, hdecode⟩ := Cursor.decode_encode hcursor
      refine ⟨hless, ⟨cursor, rfl⟩, _, startKey_cursor hdecode, htail.of_text? ?_⟩
      rw [keyName_shownQuery hs, hid]
      rfl

theorem exists_cursor (hs : c.Serves m) {item : Item} (hi : c.InRange m now group r item) :
    ∃ cursor, Cursor.encode (m.schema.resumeKey (c.shownQuery now group r) item) = .ok cursor := by
  obtain ⟨hlive, hgroup, hdate⟩ := hi
  obtain ⟨id, hget⟩ := Table.mem_items.mp hlive
  rw [Option.any_eq_true] at hdate
  obtain ⟨date, hdate, -⟩ := hdate
  have hnames : m.schema.resumeNames (c.shownQuery now group r) =
      [idName, groupName, dateName] := by
    rw [Schema.resumeNames, keyName_shownQuery hs, sortName_shownQuery hs]
    rfl
  have htext : ∀ name ∈ [idName, groupName, dateName],
      (m.schema.resumeKey (c.shownQuery now group r) item).text? name = item.text? name :=
    fun name hname => Schema.text?_resumeKey_of_mem item (hnames ▸ hname)
  refine Cursor.exists_encode_eq_ok ((htext _ (by simp)).trans (hs.keyed id item hget))
    ((htext _ (by simp)).trans hgroup) ((htext _ (by simp)).trans hdate)

/-- The items of a page are shown as events, if they can be read, and the next page is named. -/
theorem exists_toPage (hs : c.Serves m)
    (hread : ∀ item ∈ c.shown m now group r, ∃ e, Event.ofItem item = .ok e) :
    ∃ page, toPage r (Memory.pageFrom m.schema (c.shownQuery now group r) start
      (c.shown m now group r)) = .ok page := by
  set p := Memory.pageFrom m.schema (c.shownQuery now group r) start (c.shown m now group r)
    with hp
  have hitems : ∀ item ∈ p.items, item ∈ c.shown m now group r := fun item hi =>
    Schema.mem_of_mem_resume (List.mem_of_mem_take hi)
  obtain ⟨events, hevents⟩ : ∃ events, p.items.mapM decodeEvent = .ok events := by
    refine Record.exists_mapM_eq_ok fun item hi => ?_
    obtain ⟨e, he⟩ := hread item (hitems item hi)
    exact ⟨e, by rw [decodeEvent, he]; rfl⟩
  rw [toPage, hevents]
  cases hkey : p.lastKey with
  | none => exact ⟨_, rfl⟩
  | some key =>
    rw [hp, Memory.pageFrom] at hkey
    dsimp only at hkey
    split at hkey
    · obtain ⟨last, hlast, rfl⟩ := Option.map_eq_some_iff.mp hkey
      have hmem := hitems last (List.mem_of_getLast? hlast)
      obtain ⟨cursor, hcursor⟩ := exists_cursor hs ((mem_shown hs).mp hmem)
      refine ⟨⟨events, some { r with cursor := some cursor }⟩, ?_⟩
      change (Cursor.encode _ >>= _) = _
      rw [hcursor]
      rfl
    · cases hkey

/-- A page is given of what can be read. -/
theorem exists_page (hs : c.Serves m) (hf : m.faults.nextError = none)
    (hl : r.limit.any (· < 1) = false) (hstart : startKey r = .ok start)
    (hread : ∀ item ∈ c.shown m now group r, ∃ e, Event.ofItem item = .ok e)
    (source : Source ω) (w : ω) :
    ∃ page, (c.page now group r).run.run (answer source) (m, w) =
      (.done (.ok page), (m.query (c.shownQuery now group r) start).2, w) := by
  obtain ⟨page, hpage⟩ := exists_toPage hs hread
  exact ⟨page, page_run hf hl hstart hpage w⟩

/-- What a walk gives is what is read from all that is left behind its start. -/
theorem Walk.forall₂_rest {visits : List Visit} {events : List Event}
    (hw : Walk c source group visits events) (hs : c.Serves m)
    (hall : ∀ v ∈ visits, v.now = now ∧ m.Same v.memory) :
    ∀ v ∈ visits.head?, ∀ start rest, startKey v.request = .ok start →
      m.Leaves (c.shownQuery now group v.request) start rest →
        List.Forall₂ (fun item e => Event.ofItem item = .ok e) rest events := by
  induction hw with
  | @last v events w s h =>
    rintro _ ⟨⟩ start rest hstart hleft
    obtain ⟨⟨rfl, hsame⟩, -⟩ := List.forall_mem_cons.mp hall
    obtain ⟨items, tail, rfl, hread, hend, -⟩ :=
      page_rest (hs.of_same hsame) (hleft.of_same hsame) hstart h
    rwa [hend rfl, List.append_nil]
  | @next v v' visits events rest' w s h hw ih =>
    rintro _ ⟨⟩ start rest hstart hleft
    obtain ⟨⟨rfl, hsame⟩, hall⟩ := List.forall_mem_cons.mp hall
    obtain ⟨items, tail, rfl, hread, -, hnext⟩ :=
      page_rest (hs.of_same hsame) (hleft.of_same hsame) hstart h
    obtain ⟨-, -, key, hkey, htail⟩ := hnext v'.request rfl
    exact List.rel_append hread (ih hall v' rfl _ tail hkey (htail.of_same hsame.symm))

/-- A walk through a store without errors comes to an end, if what is shown can be read. -/
theorem exists_walk (hs : c.Serves m) (hf : m.faults.nextError = none)
    (hl : r.limit.any (· < 1) = false) (hstart : startKey r = .ok start)
    (hread : ∀ item ∈ c.shown m now group r, ∃ e, Event.ofItem item = .ok e)
    (hleft : m.Leaves (c.shownQuery now group r) start rest) (source : Source ω) (w : ω) :
    ∃ visits events, Walk c source group (⟨now, m, r⟩ :: visits) events ∧
      ∀ v ∈ visits, v.now = now ∧ m.Same v.memory := by
  induction hn : rest.length using Nat.strong_induction_on generalizing m r start rest with
  | h n ih =>
    obtain ⟨⟨events, next⟩, hpage⟩ := exists_page hs hf hl hstart hread source w
    obtain ⟨items, tail, -, -, -, hnext⟩ := page_rest hs hleft hstart hpage
    cases next with
    | none => exact ⟨[], events, .last hpage, by simp⟩
    | some r' =>
      obtain ⟨hless, ⟨cursor, rfl⟩, key, hkey, htail⟩ := hnext r' rfl
      have hsame := m.query_same (c.shownQuery now group r) start
      have hread' : ∀ item ∈ c.shown (m.query (c.shownQuery now group r) start).2 now group r,
          ∃ e, Event.ofItem item = .ok e := by
        rw [shown, hsame.schema_eq, hsame.table_eq]
        exact hread
      obtain ⟨visits, later, hw, hall⟩ := ih tail.length (hn ▸ hless)
        (r := { r with cursor := some cursor }) (hs.of_same hsame) (m.nextError_query _ _) hl hkey
        hread' (htail.of_same hsame) rfl
      refine ⟨_, _, .next hpage hw, List.forall_mem_cons.mpr ⟨⟨rfl, hsame⟩, fun v hv => ?_⟩⟩
      obtain ⟨hnow, hsame'⟩ := hall v hv
      exact ⟨hnow, hsame.trans hsame'⟩

end Catalogue

end GroupCalendar
