import GroupCalendar.Api.Events
import GroupCalendar.Proofs.Api.Cursor
import GroupCalendar.Proofs.Event.Effects
import GroupCalendar.Proofs.Store.Order

/-! # One page of a group's events

The events of a group in a range stand in the strict order of their places, date before id. A page
shows the first of them behind the place that its cursor names, if an event stands at that place,
and the request for what follows names the place of its last event.
-/

namespace GroupCalendar

namespace Catalogue

open Store Service

variable {ω : Type} {source : Source ω} {c : Catalogue} {m : Memory} {now : Instant}
  {group : String} {r : PageRequest}

/-- A store with the live table and the index that pages are read from. -/
structure Serves (c : Catalogue) (m : Memory) : Prop where
  live_key : m.schema.keyName c.live = idName
  index_in : c.IndexIn m.schema
  keyed : (m.table c.live).Keyed idName
  sorted : ∀ item ∈ m.items c.live, Fields.Sorted item
  pageSize_pos : 0 < m.schema.pageSize

/-- The place of an event among those of its group: the text of its date, then its id. -/
def place (item : Item) : WithBot String ×ₗ WithBot String :=
  toLex (Schema.rank (item.text? dateName), Schema.rank (item.text? idName))

/-- A live event of the group in the range that is requested. -/
def InRange (c : Catalogue) (m : Memory) (now : Instant) (group : String) (r : PageRequest)
    (item : Item) : Prop :=
  item ∈ m.items c.live ∧ item.text? groupName = some group ∧
    (item.text? dateName).any (condition now r).holds = true

/-- The place is behind the one that the cursor names, if there is a cursor. -/
def Ahead (r : PageRequest) (item : Item) : Prop :=
  ∀ key, startKey r = .ok (some key) → place key < place item

/-- The cursor names the place of an event in the range, if there is a cursor. -/
def Steady (c : Catalogue) (m : Memory) (now : Instant) (group : String) (r : PageRequest) : Prop :=
  ∀ key, startKey r = .ok (some key) →
    ∃ named, c.InRange m now group r named ∧ named.text? idName = key.text? idName ∧
      named.text? dateName = key.text? dateName

/-- What the store is asked for a page. -/
def shownQuery (c : Catalogue) (now : Instant) (group : String) (r : PageRequest) : Query :=
  { c.rangeQuery group (condition now r) with limit := r.limit }

/-- The events in the range, in their order. -/
def shown (c : Catalogue) (m : Memory) (now : Instant) (group : String) (r : PageRequest) :
    List Item :=
  m.schema.matching (c.shownQuery now group r) (m.table c.live)

theorem mem_shown (hs : c.Serves m) {item : Item} :
    item ∈ c.shown m now group r ↔ c.InRange m now group r item := by
  have hmatch : m.schema.isMatch (c.shownQuery now group r) item = _ :=
    isMatch_rangeQuery hs.index_in group (condition now r) item
  rw [shown, Schema.mem_matching, hmatch, Bool.and_eq_true, decide_eq_true_eq]
  rfl

theorem sortName_shownQuery (hs : c.Serves m) :
    m.schema.sortName (c.shownQuery now group r) = some dateName := by
  change (m.schema.indexes.get? c.index).bind (·.sortName) = _
  rw [hs.index_in]
  rfl

theorem keyName_shownQuery (hs : c.Serves m) :
    m.schema.keyName (c.shownQuery now group r).table = idName :=
  hs.live_key

theorem place_shownQuery (hs : c.Serves m) (item : Item) :
    m.schema.place (c.shownQuery now group r) item = place item := by
  rw [Schema.place, Schema.sortKey, sortName_shownQuery hs, keyName_shownQuery hs]
  rfl

theorem keyed_shownQuery (hs : c.Serves m) :
    (m.table c.live).Keyed (m.schema.keyName (c.shownQuery now group r).table) := by
  rw [keyName_shownQuery hs]
  exact hs.keyed

theorem sorted_shown (hs : c.Serves m) :
    (c.shown m now group r).Pairwise fun a b => place a < place b := by
  refine (Schema.sorted_matching (keyed_shownQuery hs)).imp fun {a b} hab => ?_
  rwa [place_shownQuery hs, place_shownQuery hs] at hab

/-- What a page is taken from are the events in the range behind the cursor. -/
theorem exists_remaining (hs : c.Serves m) (hsteady : c.Steady m now group r)
    {start : Option Item} (hstart : startKey r = .ok start) :
    ∃ remaining, m.schema.resume (c.shownQuery now group r) start (c.shown m now group r) =
        remaining ∧ remaining.Pairwise (fun a b => place a < place b) ∧
      ∀ item, item ∈ remaining ↔ c.InRange m now group r item ∧ Ahead r item := by
  refine ⟨_, rfl, ?_⟩
  cases start with
  | none =>
    refine ⟨sorted_shown hs, fun item => ?_⟩
    change item ∈ c.shown m now group r ↔ _
    rw [mem_shown hs]
    refine ⟨fun h => ⟨h, fun key hkey => ?_⟩, And.left⟩
    rw [hstart] at hkey
    cases hkey
  | some key =>
    obtain ⟨named, hnamed, hid, hdate⟩ := hsteady key hstart
    have hkey : key.text? (m.schema.keyName (c.shownQuery now group r).table) =
        named.text? (m.schema.keyName (c.shownQuery now group r).table) := by
      rw [keyName_shownQuery hs]
      exact hid.symm
    have hplace : place named = place key := by
      rw [place, place, hid, hdate]
    have hresume := Schema.resume_eq_filter (keyed_shownQuery hs) ((mem_shown hs).mpr hnamed) hkey
    change m.schema.resume _ _ (c.shown m now group r) = _ at hresume
    rw [hresume]
    refine ⟨(sorted_shown hs).filter _, fun item => ?_⟩
    rw [List.mem_filter, decide_eq_true_eq, place_shownQuery hs, place_shownQuery hs, hplace]
    refine and_congr (mem_shown hs) ⟨fun hlt key' hkey' => ?_, fun h => h key hstart⟩
    rw [hstart] at hkey'
    cases hkey'
    exact hlt

theorem startKey_cursor {cursor : String} {key : Item} (h : Cursor.decode cursor = .ok key) :
    startKey { r with cursor := some cursor } = .ok (some key) := by
  have hne : cursor.isEmpty = false := by
    rw [← Bool.not_eq_true, String.isEmpty_iff]
    rintro rfl
    cases h
  have hstart : startKey { r with cursor := some cursor } =
      if cursor.isEmpty then .ok none else some <$> Cursor.decode cursor := rfl
  rw [hstart, if_neg (by simp [hne]), h]
  rfl

/-- A request with the cursor of an item starts at the place of the item. -/
theorem startKey_of_encode (hs : c.Serves m) {last : Item} {cursor : String}
    (h : Cursor.encode (m.schema.resumeKey (c.shownQuery now group r) last) = .ok cursor) :
    ∃ key, startKey { r with cursor := some cursor } = .ok (some key) ∧ place key = place last := by
  obtain ⟨id, group', date, hid, -, hdate, hdecode⟩ := Cursor.decode_encode h
  have hidMem : idName ∈ m.schema.resumeNames (c.shownQuery now group r) := by
    rw [Schema.resumeNames, keyName_shownQuery hs]
    exact List.mem_cons_self
  have hdateMem : dateName ∈ m.schema.resumeNames (c.shownQuery now group r) := by
    rw [Schema.resumeNames, sortName_shownQuery hs]
    exact List.mem_cons_of_mem _ (List.mem_cons_of_mem _ List.mem_cons_self)
  rw [Schema.text?_resumeKey_of_mem last hidMem] at hid
  rw [Schema.text?_resumeKey_of_mem last hdateMem] at hdate
  refine ⟨_, startKey_cursor hdecode, ?_⟩
  rw [place, place, hid, hdate]
  rfl

/-- The items of a page, and the request for what follows it. -/
structure PageOf (c : Catalogue) (m : Memory) (now : Instant) (group : String) (r : PageRequest)
    (page : EventsPage) (items : List Item) (remaining : List Item) : Prop where
  sorted : remaining.Pairwise fun a b => place a < place b
  mem_remaining : ∀ item, item ∈ remaining ↔ c.InRange m now group r item ∧ Ahead r item
  prefix_remaining : items <+: remaining
  decoded : List.Forall₂ (fun item e => Event.ofItem item = .ok e) items page.events
  all_of_none : page.next = none → items = remaining
  next_eq : ∀ r', page.next = some r' → ∃ last, items.getLast? = some last ∧
    ∃ cursor key, r' = { r with cursor := some cursor } ∧ startKey r' = .ok (some key) ∧
      place key = place last

theorem pageQuery_eq_ok {q : Query} {start : Option Item}
    (h : c.pageQuery now group r = .ok (q, start)) :
    startKey r = .ok start ∧ q = c.shownQuery now group r := by
  rw [pageQuery] at h
  split at h
  · cases h
  · obtain ⟨start', hstart, h⟩ := Record.bind_eq_ok h
    cases h
    exact ⟨hstart, rfl⟩

/-- A page is given if the request is well formed, no error is set and the items can be read. -/
theorem page_run (hf : m.faults.nextError = none) (hl : r.limit.any (· < 1) = false)
    {start : Option Item} (hstart : startKey r = .ok start) {page : EventsPage}
    (hpage : toPage r (Memory.pageFrom m.schema (c.shownQuery now group r) start
      (c.shown m now group r)) = .ok page) (w : ω) :
    (c.page now group r).run.run (answer source) (m, w) =
      (.done (.ok page), (m.query (c.shownQuery now group r) start).2, w) := by
  have hq : c.pageQuery now group r = .ok (c.shownQuery now group r, start) := by
    rw [pageQuery, if_neg (by simp [hl]), hstart]
    rfl
  rw [Catalogue.page, hq]
  change Program.run (S := signature) (answer source)
    (ExceptT.bindCont (fun p => Task.ofExcept (toPage r p))
      ((m.query (c.shownQuery now group r) start).1.mapError EventsError.store))
    ((m.query (c.shownQuery now group r) start).2, w) = _
  rw [Memory.query_ok hf]
  change Program.run (S := signature) (answer source) (.done (toPage r (Memory.pageFrom m.schema
    (c.shownQuery now group r) start (c.shown m now group r)))) _ = _
  rw [hpage]
  rfl

theorem page_run_of_sorted (hf : m.faults.nextError = none) (hl : r.limit.any (· < 1) = false)
    {start : Option Item} (hstart : startKey r = .ok start)
    (hsorted : ((m.items c.live).filter (m.schema.isMatch (c.shownQuery now group r))).Pairwise
      fun a b => Schema.notAfter (m.schema.sortKey (c.shownQuery now group r) a)
        (m.schema.sortKey (c.shownQuery now group r) b) = true) {page : EventsPage}
    (hpage : toPage r (Memory.pageFrom m.schema (c.shownQuery now group r) start
      ((m.items c.live).filter (m.schema.isMatch (c.shownQuery now group r)))) = .ok page) (w : ω) :
    (c.page now group r).run.run (answer source) (m, w) =
      (.done (.ok page), (m.query (c.shownQuery now group r) start).2, w) := by
  have hshown : c.shown m now group r =
      (m.items c.live).filter (m.schema.isMatch (c.shownQuery now group r)) :=
    Schema.matching_eq_of_sorted hsorted
  exact page_run hf hl hstart (hshown ▸ hpage) w

theorem toPage_eq_ok {p : Page} {page : EventsPage} (h : toPage r p = .ok page) :
    List.Forall₂ (fun item e => Event.ofItem item = .ok e) p.items page.events ∧
      match p.lastKey with
      | none => page.next = none
      | some key => ∃ cursor, Cursor.encode key = .ok cursor ∧
          page.next = some { r with cursor := some cursor } := by
  obtain ⟨events, hevents, h⟩ := Record.bind_eq_ok h
  have hdecoded : List.Forall₂ (fun item e => Event.ofItem item = .ok e) p.items events :=
    (Record.forall₂_of_mapM hevents).imp fun _ _ => Record.ok_of_mapError
  cases hlast : p.lastKey with
  | none =>
    rw [hlast] at h
    cases h
    exact ⟨hdecoded, rfl⟩
  | some key =>
    rw [hlast] at h
    obtain ⟨cursor, hcursor, h⟩ := Record.bind_eq_ok h
    cases h
    exact ⟨hdecoded, cursor, hcursor, rfl⟩

/-- A page that is given is a first part of what the request asks for. -/
theorem pageOf_of_ok (hs : c.Serves m) (hsteady : c.Steady m now group r) {q : Query}
    {start : Option Item} {p : Page} {page : EventsPage}
    (hq : c.pageQuery now group r = .ok (q, start)) (hp : (m.query q start).1 = .ok p)
    (hpage : toPage r p = .ok page) :
    ∃ remaining, c.PageOf m now group r page p.items remaining := by
  obtain ⟨hstart, rfl⟩ := pageQuery_eq_ok hq
  obtain ⟨hitems, hlast⟩ := Memory.query_eq_ok hp
  obtain ⟨hdecoded, hnext⟩ := toPage_eq_ok hpage
  obtain ⟨remaining, hremaining, hsorted, hmem⟩ := exists_remaining hs hsteady hstart
  change p.items = (m.schema.resume _ start (c.shown m now group r)).take _ at hitems
  change p.lastKey = if p.items.length < (m.schema.resume _ start (c.shown m now group r)).length
    then _ else _ at hlast
  rw [hremaining] at hitems hlast
  have hpos := Schema.pageLimit_pos hs.pageSize_pos (c.shownQuery now group r)
  refine ⟨remaining, hsorted, hmem, hitems ▸ List.take_prefix .., hdecoded, ?_, ?_⟩
  · intro hnone
    cases hkey : p.lastKey with
    | some key =>
      rw [hkey] at hnext
      obtain ⟨cursor, -, hsome⟩ := hnext
      rw [hnone] at hsome
      cases hsome
    | none =>
      rw [hkey] at hlast
      exact eq_of_lastKey_none hpos hitems hlast.symm
  · intro r' hr'
    cases hkey : p.lastKey with
    | none =>
      rw [hkey] at hnext
      rw [hr'] at hnext
      cases hnext
    | some key =>
      rw [hkey] at hnext hlast
      obtain ⟨cursor, hcursor, hsome⟩ := hnext
      obtain rfl := Option.some.inj (hr'.symm.trans hsome)
      split at hlast
      · obtain ⟨last, hgetLast, rfl⟩ := Option.map_eq_some_iff.mp hlast.symm
        obtain ⟨key, hkey, hplace⟩ := startKey_of_encode hs hcursor
        exact ⟨last, hgetLast, cursor, key, rfl, hkey, hplace⟩
      · cases hlast

/-- A page that is given is made of what the store answers to its query. -/
theorem page_ensures_query (w : ω) :
    (c.page now group r).Ensures (session source) (m, w) fun page _ =>
      ∃ q start p, c.pageQuery now group r = .ok (q, start) ∧ (m.query q start).1 = .ok p ∧
        toPage r p = .ok page := by
  have hquery : (Task.ofExcept (c.pageQuery now group r)).Ensures (session source) (m, w)
      fun qs s => c.pageQuery now group r = .ok qs ∧ s = (m, w) :=
    Task.ensures_ofExcept fun qs hq => ⟨hq, rfl⟩
  refine hquery.bind ?_
  rintro ⟨q, start⟩ _ ⟨hq, rfl⟩
  refine (Task.ensures_query (fun p _ => (m.query q start).1 = .ok p) trivial ?_).mapError.bind ?_
  · rintro p s hr
    exact (Prod.mk.inj hr).1
  · rintro p s hp
    exact Task.ensures_ofExcept fun page hpage => ⟨q, start, p, hq, hp, hpage⟩

theorem page_ensures (hs : c.Serves m) (hsteady : c.Steady m now group r) (w : ω) :
    (c.page now group r).Ensures (session source) (m, w) fun page _ =>
      ∃ items remaining, c.PageOf m now group r page items remaining := by
  refine (page_ensures_query w).mono ?_
  rintro page _ ⟨q, start, p, hq, hp, hpage⟩
  exact ⟨p.items, pageOf_of_ok hs hsteady hq hp hpage⟩

/-- A page that is given holds the first of the items that are shown behind its start. -/
theorem page_run_eq_ok {page : EventsPage} {w : ω} {s : Memory × ω}
    (h : (c.page now group r).run.run (answer source) (m, w) = (.done (.ok page), s)) :
    ∃ start, startKey r = .ok start ∧ List.Forall₂ (fun item e => Event.ofItem item = .ok e)
      ((m.schema.resume (c.shownQuery now group r) start (c.shown m now group r)).take
        (m.schema.pageLimit (c.shownQuery now group r))) page.events := by
  obtain ⟨q, start, p, hq, hp, hpage⟩ := (page_ensures_query w).of_run h
  obtain ⟨hstart, rfl⟩ := pageQuery_eq_ok hq
  obtain ⟨hitems, -⟩ := Memory.query_eq_ok hp
  obtain ⟨hdecoded, -⟩ := toPage_eq_ok hpage
  rw [hitems] at hdecoded
  exact ⟨start, hstart, hdecoded⟩

end Catalogue

end GroupCalendar
