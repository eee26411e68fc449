import GroupCalendar.Proofs.Event.Identity
import GroupCalendar.Proofs.Store.Paging

/-! # Effects of the catalogue

What reading, upserting and archiving do to a store in memory that nobody else uses, when they
succeed. Batches that are sent again in part have the effect of the whole batch sent once, and the
chunks of a list that of the whole list.
-/

namespace GroupCalendar

open Store Service

section Batches

variable {ω : Type} {source : Source ω} {m : Memory} {table : String}

theorem pause_ensures (attempt : Nat) (s : Memory × ω) :
    (pause attempt).Ensures (session source) s fun _ s' => s' = s := by
  unfold pause
  split
  · exact Task.ensures_pure rfl
  · refine Task.ensures_wait trivial ?_
    rintro s' ⟨⟩
    rfl

theorem writePending_ensures (m : Memory) (left : Nat) (ws : List Write) (w : ω) :
    (writePending table left ws).Ensures (session source) (m, w) fun _ s =>
      m.Wrote table ws s.1 ∧ s.2 = w := by
  induction left generalizing m ws with
  | zero =>
    unfold writePending
    split
    · next he =>
      obtain rfl := List.isEmpty_iff.mp he
      exact Task.ensures_pure ⟨(Memory.Same.refl m).wrote table, rfl⟩
    · exact Task.ensures_throw _ _ _
  | succ left ih =>
    unfold writePending
    split
    · next he =>
      obtain rfl := List.isEmpty_iff.mp he
      exact Task.ensures_pure ⟨(Memory.Same.refl m).wrote table, rfl⟩
    · refine (pause_ensures _ _).bind ?_
      rintro _ _ rfl
      obtain ⟨done, -, hw, hr⟩ := m.batchWrite_wrote table ws
      refine (Task.ensures_batchWrite (fun later s => ws = done ++ later ∧
        m.Wrote table done s.1 ∧ s.2 = w) trivial ?_).bind ?_
      · rintro later s hs
        obtain ⟨hb, rfl⟩ := Prod.mk.inj hs
        exact ⟨hr later hb, hw, rfl⟩
      · rintro later ⟨m', w'⟩ ⟨rfl, hw', rfl⟩
        exact (ih m' later).mono fun _ s hs => ⟨hw'.trans hs.1, hs.2⟩

/-- All of the writes have been followed. -/
theorem writeAll_ensures (m : Memory) (table : String) (ws : List Write) (w : ω) :
    (writeAll table ws).Ensures (session source) (m, w) fun _ s =>
      m.Wrote table ws s.1 ∧ s.2 = w :=
  writePending_ensures m maxAttempts ws w

theorem getPending_ensures (m : Memory) (left : Nat) (items keys : List Item) (w : ω) :
    (getPending table left items keys).Ensures (session source) (m, w) fun result s =>
      result = items ++ keys.filterMap (m.found table) ∧ m.Same s.1 ∧ s.2 = w := by
  induction left generalizing m items keys with
  | zero =>
    unfold getPending
    split
    · next he =>
      obtain rfl := List.isEmpty_iff.mp he
      exact Task.ensures_pure ⟨by simp, .refl m, rfl⟩
    · exact Task.ensures_throw _ _ _
  | succ left ih =>
    unfold getPending
    split
    · next he =>
      obtain rfl := List.isEmpty_iff.mp he
      exact Task.ensures_pure ⟨by simp, .refl m, rfl⟩
    · refine (pause_ensures _ _).bind ?_
      rintro _ _ rfl
      obtain ⟨hsame, hr⟩ := m.batchGet_found table keys
      refine (Task.ensures_batchGet (fun b s => (∃ now, keys = now ++ b.unprocessed ∧
        b.items = now.filterMap (m.found table)) ∧ m.Same s.1 ∧ s.2 = w) trivial ?_).bind ?_
      · rintro b s hs
        obtain ⟨hb, rfl⟩ := Prod.mk.inj hs
        exact ⟨hr b hb, hsame, rfl⟩
      · rintro b ⟨m', w'⟩ ⟨⟨now, hk, hb⟩, hs', rfl⟩
        refine (ih m' (items ++ b.items) b.unprocessed).mono ?_
        rintro result s ⟨hres, hs'', hw⟩
        refine ⟨?_, hs'.trans hs'', hw⟩
        rw [hres, hk, hb, hs'.found_eq, List.filterMap_append, List.append_assoc]

/-- The items of the keys, in the order of the keys. -/
theorem getAll_ensures (m : Memory) (table : String) (keys : List Item) (w : ω) :
    (getAll table keys).Ensures (session source) (m, w) fun items s =>
      items = keys.filterMap (m.found table) ∧ m.Same s.1 ∧ s.2 = w :=
  getPending_ensures m maxAttempts [] keys w

end Batches

namespace Catalogue

/-- The two tables are different ones, and both are keyed by ids. -/
structure Fits (c : Catalogue) (s : Schema) : Prop where
  live_key : s.keyName c.live = idName
  archive_key : s.keyName c.archive = idName
  distinct : c.live ≠ c.archive

/-- The index by group and date that a catalogue reads. -/
def IndexIn (c : Catalogue) (s : Schema) : Prop :=
  s.indexes.get? c.index = some ⟨groupName, some dateName⟩

variable {ω : Type} {source : Source ω} {c : Catalogue} {m m' m'' : Memory}

theorem Fits.live_keyed (hc : c.Fits m.schema) (hk : m.Keyed) : (m.table c.live).Keyed idName := by
  have hlive := hk c.live
  rwa [hc.live_key] at hlive

section Reading

/-- The live items of a group with a date text after that of an instant. -/
def upcomingItems (c : Catalogue) (m : Memory) (now : Instant) (group : String) : List Item :=
  (m.items c.live).filter fun item =>
    item.text? groupName = some group && (item.text? dateName).any (formatStoredDate now < ·)

def upcomingIds (c : Catalogue) (m : Memory) (now : Instant) (group : String) : List String :=
  (c.upcomingItems m now group).filterMap (·.text? idName)

theorem mem_upcomingIds_iff (hk : (m.table c.live).Keyed idName) {now : Instant}
    {group id : String} : id ∈ c.upcomingIds m now group ↔ ∃ item, m.get? c.live id = some item ∧
      item.text? groupName = some group ∧ (item.text? dateName).any (formatStoredDate now < ·) := by
  simp only [upcomingIds, upcomingItems, List.mem_filterMap, List.mem_filter, Bool.and_eq_true,
    decide_eq_true_eq]
  constructor
  · rintro ⟨item, ⟨hi, hg, hd⟩, hid⟩
    obtain ⟨key, hkey⟩ := Table.mem_items.mp hi
    obtain rfl : key = id := Option.some.inj ((hk key item hkey).symm.trans hid)
    exact ⟨item, hkey, hg, hd⟩
  · rintro ⟨item, hl, hg, hd⟩
    exact ⟨item, ⟨Table.mem_items.mpr ⟨id, hl⟩, hg, hd⟩, hk id item hl⟩

theorem isSome_of_mem_upcomingIds (hk : (m.table c.live).Keyed idName) {now : Instant}
    {group id : String} (h : id ∈ c.upcomingIds m now group) : (m.get? c.live id).isSome := by
  obtain ⟨item, hl, -⟩ := (mem_upcomingIds_iff hk).mp h
  exact Option.isSome_of_eq_some hl

theorem isMatch_rangeQuery {s : Schema} (hi : c.IndexIn s) (group : String) (k : Condition)
    (item : Item) : s.isMatch (c.rangeQuery group k) item =
      (decide (item.text? groupName = some group) && (item.text? dateName).any k.holds) := by
  have hs : s.sortName (c.rangeQuery group k) = some dateName := by
    change (s.indexes.get? c.index).bind (·.sortName) = _
    rw [hi]
    rfl
  unfold Schema.isMatch Schema.indexed
  rw [hs]
  change (decide (item.text? groupName = some group) && (item.text? dateName).isSome &&
    (item.text? dateName).any k.holds) = _
  cases item.text? dateName <;> simp

theorem matching_perm_upcomingItems (hi : c.IndexIn m.schema) (now : Instant) (group : String) :
    (m.schema.matching (c.rangeQuery group (.after (formatStoredDate now)))
      (m.table c.live)).Perm (c.upcomingItems m now group) := by
  refine (Schema.matching_perm ..).trans (.of_eq (List.filter_congr fun item _ => ?_))
  exact isMatch_rangeQuery hi group _ item

/-- The events that the upcoming items are read as have their ids, and are as many. -/
theorem ids_of_decodeItems_matching (hi : c.IndexIn m.schema)
    (hs : ∀ item ∈ m.items c.live, Fields.Sorted item) {now : Instant} {group : String}
    {events : List Event} (he : decodeItems (m.schema.matching
      (c.rangeQuery group (.after (formatStoredDate now))) (m.table c.live)) = .ok events) :
    (events.map (·.id)).Perm (c.upcomingIds m now group) ∧
      events.length = (c.upcomingItems m now group).length := by
  have hperm := matching_perm_upcomingItems hi now group
  constructor
  · rw [ids_of_decodeItems (fun item hm => hs item (Schema.mem_matching.mp hm).1) he]
    exact hperm.filterMap _
  · rw [← (forall₂_of_decodeItems he).length_eq]
    exact hperm.length_eq

/-- What is read of a group are its upcoming items. -/
theorem upcoming_ensures (hi : c.IndexIn m.schema) (hk : m.Keyed)
    (hp : 0 < m.schema.pageSize) (hs : ∀ item ∈ m.items c.live, Fields.Sorted item) (pages : Nat)
    (now : Instant) (group : String) (w : ω) :
    (c.upcoming pages now group).Ensures (session source) (m, w) fun events s =>
      (events.map (·.id)).Perm (c.upcomingIds m now group) ∧
      events.length = (c.upcomingItems m now group).length ∧ m.Same s.1 ∧ s.2 = w := by
  refine (queryAll_ensures (hk c.live) hp pages w).mapError.bind ?_
  rintro items s ⟨rfl, hsame, hw⟩
  refine Task.ensures_ofExcept fun events he => ?_
  obtain ⟨hids, hlength⟩ := ids_of_decodeItems_matching hi hs he
  exact ⟨hids, hlength, hsame, hw⟩

end Reading

theorem mem_of_mem_chunk {α : Type} {xs chunk : List α} (hc : chunk ∈ chunks maxWrites xs) {x : α}
    (hx : x ∈ chunk) : x ∈ xs := by
  have h : (chunks maxWrites xs).flatten = xs := flatten_chunks xs (by decide)
  rw [← h]
  exact List.mem_flatten.mpr ⟨chunk, hc, hx⟩

/-- The whole list of events has been put into the live table. -/
theorem upsert_ensures (c : Catalogue) (m : Memory) (events : List Event) (w : ω) :
    (c.upsert events).Ensures (session source) (m, w) fun _ s =>
      m.Wrote c.live (events.map fun e => .put e.toItem) s.1 ∧ s.2 = w := by
  have h : (c.upsert events).Ensures (session source) (m, w) fun _ s =>
      m.Wrote c.live ((chunks maxWrites events).flatten.map fun e => .put e.toItem) s.1 ∧
        s.2 = w := by
    refine Task.ensures_forM (g := (m, w)) (chunks maxWrites events) (fun done s =>
      m.Wrote c.live (done.flatten.map fun e => .put e.toItem) s.1 ∧ s.2 = w)
      ⟨(Memory.Same.refl m).wrote c.live, rfl⟩ ?_
    rintro done chunk rest ⟨m', w'⟩ - ⟨hw, rfl⟩
    refine (writeAll_ensures m' c.live _ w').mapError.mono ?_
    rintro _ s ⟨hw', hs⟩
    refine ⟨?_, hs⟩
    rw [List.flatten_append, List.flatten_singleton, List.map_append]
    exact hw.trans hw'
  rwa [flatten_chunks events (by decide)] at h

section Archiving

/-- An id that was live is live no more. -/
def Deleted (c : Catalogue) (m m' : Memory) (id : String) : Prop :=
  (m.get? c.live id).isSome ∧ m'.get? c.live id = none

/-- The items of some ids have moved from the live table to the archive. -/
structure Moved (c : Catalogue) (ids : List String) (m m' : Memory) : Prop where
  schema_eq : m'.schema = m.schema
  live_eq : m'.table c.live = (m.table c.live).eraseAll ids
  archive_eq : m'.table c.archive = (m.table c.archive).putAll ((m.table c.live).rowsAt ids)
  other_eq : ∀ other, other ≠ c.live → other ≠ c.archive → m'.table other = m.table other

theorem Moved.refl (c : Catalogue) (m : Memory) : c.Moved [] m m :=
  ⟨rfl, rfl, rfl, fun _ _ _ => rfl⟩

theorem Moved.trans {ids ids' : List String} (h : c.Moved ids m m') (h' : c.Moved ids' m' m'') :
    c.Moved (ids ++ ids') m m'' where
  schema_eq := h'.schema_eq.trans h.schema_eq
  live_eq := by rw [h'.live_eq, h.live_eq, Table.eraseAll_append]
  archive_eq := by rw [h'.archive_eq, h.archive_eq, h.live_eq, Table.putAll_rowsAt_append]
  other_eq other hl ha := (h'.other_eq other hl ha).trans (h.other_eq other hl ha)

theorem Moved.congr {ids ids' : List String} (h : c.Moved ids m m')
    (he : ∀ id, id ∈ ids ↔ id ∈ ids') : c.Moved ids' m m' where
  schema_eq := h.schema_eq
  live_eq := by rw [h.live_eq, Table.eraseAll_congr _ he]
  archive_eq := by rw [h.archive_eq, Table.putAll_rowsAt_congr _ _ he]
  other_eq := h.other_eq

theorem Moved.keyed {ids : List String} (h : c.Moved ids m m')
    (hk : (m.table c.live).Keyed idName) : (m'.table c.live).Keyed idName := by
  intro key item hi
  rw [h.live_eq, Table.get?_eraseAll] at hi
  split at hi
  · cases hi
  · exact hk key item hi

theorem mem_names_rowsAt {t : Table} {ids : List String} {id : String} :
    id ∈ (t.rowsAt ids).names ↔ id ∈ ids ∧ (t.get? id).isSome := by
  simp only [Fields.names, Table.rowsAt, Fields.select, List.mem_map, List.mem_filterMap]
  constructor
  · rintro ⟨row, ⟨key, hk, hr⟩, rfl⟩
    obtain ⟨item, hi, rfl⟩ := Option.map_eq_some_iff.mp hr
    exact ⟨hk, Option.isSome_of_eq_some hi⟩
  · rintro ⟨hk, hs⟩
    obtain ⟨item, hi⟩ := Option.isSome_iff_exists.mp hs
    exact ⟨(id, item), ⟨id, hk, by rw [show Fields.get? id t.rows = some item from hi]; rfl⟩, rfl⟩

theorem text?_of_mem_rowsAt {t : Table} (hk : t.Keyed idName) {ids : List String}
    {row : String × Item} (h : row ∈ t.rowsAt ids) : row.2.text? idName = some row.1 := by
  obtain ⟨key, -, hr⟩ := List.mem_filterMap.mp h
  obtain ⟨item, hi, rfl⟩ := Option.map_eq_some_iff.mp hr
  exact hk key item hi

/-- The items found for ids are those of the rows under the ids. -/
theorem filterMap_found (hc : c.Fits m.schema) (ids : List String) :
    (ids.map (Item.key idName)).filterMap (m.found c.live) =
      ((m.table c.live).rowsAt ids).map (·.2) := by
  rw [List.filterMap_map, Table.rowsAt, Fields.select, List.map_filterMap]
  refine List.filterMap_congr fun id _ => ?_
  change m.found c.live (Item.key idName id) = _
  rw [Memory.found, hc.live_key, Item.text?_key]
  cases h : Fields.get? id (m.table c.live).rows with
  | none => exact h
  | some item => exact h

theorem foundKey?_of_text? {item : Item} {id : String} (h : item.text? idName = some id) :
    foundKey? item = some (Item.key idName id) := by
  unfold Item.text? at h
  obtain ⟨v, hv, ht⟩ := Option.bind_eq_some_iff.mp h
  unfold foundKey?
  rw [hv]
  cases v <;> cases ht
  rfl

theorem filterMap_foundKey? {rows : Fields Item}
    (h : ∀ row ∈ rows, row.2.text? idName = some row.1) :
    (rows.map (·.2)).filterMap foundKey? = rows.names.map (Item.key idName) := by
  induction rows with
  | nil => rfl
  | cons row rest ih =>
    obtain ⟨hr, hrest⟩ := List.forall_mem_cons.mp h
    rw [List.map_cons, List.filterMap_cons, foundKey?_of_text? hr, ih hrest]
    rfl

/-- Items that are put into the archive and then deleted have moved there. -/
theorem Moved.of_wrote {ids : List String} (hc : c.Fits m.schema)
    (hk : (m.table c.live).Keyed idName)
    (hput : m.Wrote c.archive (((m.table c.live).rowsAt ids).map fun row => .put row.2) m')
    (hdelete : m'.Wrote c.live
      (((m.table c.live).rowsAt ids).names.map fun id => .delete (Item.key idName id)) m'') :
    c.Moved ids m m'' where
  schema_eq := hdelete.schema_eq.trans hput.schema_eq
  live_eq := by
    rw [hdelete.table_eq, hput.other_eq _ hc.distinct, hput.schema_eq, hc.live_key,
      Table.apply_deletes]
    refine Table.ext fun id => ?_
    simp only [Table.get?_eraseAll, mem_names_rowsAt]
    cases (m.table c.live).get? id <;> simp
  archive_eq := by
    rw [hdelete.other_eq _ hc.distinct.symm, hput.table_eq, hc.archive_key,
      Table.apply_puts _ fun row => text?_of_mem_rowsAt hk]
  other_eq other hl ha := by rw [hdelete.other_eq other hl, hput.other_eq other ha]

/-- If none of the ids is live, there is nothing to move. -/
theorem Moved.of_none {ids : List String} (hc : c.Fits m.schema)
    (hk : (m.table c.live).Keyed idName) (hnil : (m.table c.live).rowsAt ids = [])
    (hsame : m.Same m') : c.Moved ids m m' := by
  have hput : m.Wrote c.archive (((m.table c.live).rowsAt ids).map fun row => .put row.2) m := by
    rw [hnil]
    exact (Memory.Same.refl m).wrote c.archive
  refine .of_wrote hc hk hput ?_
  rw [hnil]
  exact hsame.wrote c.live

/-- The items found are put into the archive one after the other. -/
theorem map_put_rowsAt (t : Table) (ids : List String) :
    ((t.rowsAt ids).map (·.2)).map Write.put = (t.rowsAt ids).map fun row => .put row.2 := by
  rw [List.map_map]
  rfl

/-- What is found is deleted under its id. -/
theorem map_delete_rowsAt {t : Table} (hk : t.Keyed idName) (ids : List String) :
    (((t.rowsAt ids).map (·.2)).filterMap foundKey?).map Write.delete =
      (t.rowsAt ids).names.map fun id => .delete (Item.key idName id) := by
  rw [filterMap_foundKey? fun row => text?_of_mem_rowsAt hk, List.map_map]
  rfl

theorem archiveChunk_ensures (hc : c.Fits m.schema) (hk : (m.table c.live).Keyed idName)
    (ids : List String) (w : ω) :
    (c.archiveChunk ids).Ensures (session source) (m, w) fun _ s =>
      c.Moved ids m s.1 ∧ s.2 = w := by
  refine (getAll_ensures m c.live _ w).bind ?_
  rintro items ⟨m₁, w₁⟩ ⟨rfl, hsame, rfl⟩
  rw [filterMap_found hc]
  split
  · next he =>
    have hnil : (m.table c.live).rowsAt ids = [] := List.map_eq_nil_iff.mp (List.isEmpty_iff.mp he)
    exact Task.ensures_pure ⟨.of_none hc hk hnil hsame, rfl⟩
  · rw [map_put_rowsAt, map_delete_rowsAt hk]
    refine (writeAll_ensures m₁ c.archive _ w₁).bind ?_
    rintro _ ⟨m₂, w₂⟩ ⟨hput, rfl⟩
    refine (writeAll_ensures m₂ c.live _ w₂).mono ?_
    rintro _ ⟨m₃, w₃⟩ ⟨hdelete, rfl⟩
    exact ⟨.of_wrote hc hk (hsame.trans_wrote hput) hdelete, rfl⟩

/-- The whole list of ids has moved to the archive. -/
theorem archiveEvents_ensures (hc : c.Fits m.schema) (hk : (m.table c.live).Keyed idName)
    (ids : List String) (w : ω) :
    (c.archiveEvents ids).Ensures (session source) (m, w) fun _ s =>
      c.Moved ids m s.1 ∧ s.2 = w := by
  have h : (c.archiveEvents ids).Ensures (session source) (m, w) fun _ s =>
      c.Moved (chunks maxWrites ids).flatten m s.1 ∧ s.2 = w := by
    refine Task.ensures_forM (g := (m, w)) (chunks maxWrites ids)
      (fun done s => c.Moved done.flatten m s.1 ∧ s.2 = w) ⟨.refl c m, rfl⟩ ?_
    rintro done chunk rest ⟨m', w'⟩ - ⟨hm, rfl⟩
    have hc' : c.Fits m'.schema := hm.schema_eq ▸ hc
    refine (archiveChunk_ensures hc' (hm.keyed hk) chunk w').mapError.mono ?_
    rintro _ s ⟨hm', hs⟩
    refine ⟨?_, hs⟩
    rw [List.flatten_append, List.flatten_singleton]
    exact hm.trans hm'
  rwa [flatten_chunks ids (by decide)] at h

end Archiving

end Catalogue

end GroupCalendar
