import GroupCalendar.Proofs.Event.Footprint
import GroupCalendar.Proofs.Import.Effect
import GroupCalendar.Proofs.Store.Attempts

/-! # An import keeps to its footprint

Whatever the import of a group asks for lies within its footprint, if what it lists has the group as
its own. In a store without faults nothing fails any more once both sides have been read, so that
an import which does not succeed has written nothing.
-/

namespace GroupCalendar

open Store Service

variable {ω : Type} {source : Source ω} {m : Memory} {table : String}
  {allowed : Service.Request → Prop}

section Programs

variable {ε α β : Type}

/-- A task that does not end with a value has left the store as it was. -/
def Task.AllOrNothing (source : Source ω) (t : Task ε α) (s : Memory × ω) : Prop :=
  (t.run.run (answer source) s).1.value?.isSome ∨ s.1.Same (t.run.run (answer source) s).2.1

theorem Task.AllOrNothing.bind {t : Task ε α} {f : α → Task ε β} {w : ω}
    {mid : α → Memory × ω → Prop} (ht : t.Ensures (session source) (m, w) mid)
    (hread : t.Ensures (.only Request.IsReading) () fun _ _ => True)
    (hf : ∀ a s, mid a s → Task.AllOrNothing source (f a) s) :
    Task.AllOrNothing source (t >>= f) (m, w) := by
  have hsame : m.Same (t.run.run (answer source) (m, w)).2.1 :=
    run_same source (Program.Meets.mono hread fun _ _ _ => trivial) m w
  have hrun : (t >>= f).run.run (answer source) (m, w) = _ :=
    Program.run_bind (answer source) t.run (ExceptT.bindCont f) (m, w)
  unfold Task.AllOrNothing
  rw [hrun]
  rcases h : t.run.run (answer source) (m, w) with ⟨(e | a) | _ | _, s⟩
  all_goals rw [h] at hsame ⊢
  · exact .inr hsame
  · rcases hf a s (ht.of_run h) with hv | hs
    · exact .inl hv
    · exact .inr (hsame.trans hs)
  · exact .inr hsame
  · exact .inr hsame

end Programs

namespace Catalogue

variable {c : Catalogue} {now : Instant} {group : String} {ids : List String}

/-- The contract of an import that has a store to itself and keeps to a footprint. -/
abbrev confined (source : Source ω) (c : Catalogue) (now : Instant) (group : String)
    (ids : List String) : Contract signature (Memory × ω) :=
  (session source).restrict (c.Within now group ids)

/-- Without faults every chunk of events is written, if the writes are allowed. -/
theorem upsert_completes (hc : c.Fits m.schema) (hq : m.Quiet) {events : List Event}
    (ha : ∀ chunk ∈ chunks maxWrites events,
      allowed (.store (.batchWrite c.live (chunk.map fun e => .put e.toItem)))) (w : ω) :
    (c.upsert events).Completes ((session source).restrict allowed) (m, w) fun _ s =>
      s.1.schema = m.schema ∧ s.1.Quiet := by
  refine Task.completes_forM (g := (m, w))
    (fun s => s.1.schema = m.schema ∧ s.1.Quiet) ⟨rfl, hq⟩ ?_
  rintro chunk hchunk ⟨m', w'⟩ ⟨hschema, hq'⟩
  have hlength : (chunk.map fun e => Write.put e.toItem).length ≤ maxWrites := by
    rw [List.length_map]
    exact (length_le_of_mem_chunksUpTo hchunk).1
  have hkeys : ∀ w ∈ chunk.map fun e => Write.put e.toItem,
      (w.key? (m'.schema.keyName c.live)).isSome := by
    intro w hw
    obtain ⟨e, -, rfl⟩ := List.mem_map.mp hw
    rw [hschema, hc.live_key]
    exact Option.isSome_of_eq_some e.text?_toItem
  refine Task.Completes.mapError ?_
  refine Task.Completes.mono (writeAll_completes hq' hlength hkeys (ha chunk hchunk) w') ?_
  rintro _ s ⟨hwrote, hquiet, -⟩
  exact ⟨hwrote.schema_eq.trans hschema, hquiet⟩

/-- The events of a group whose ids lie within the footprint may be written. -/
theorem within_upsert {events : List Event} (he : ∀ e ∈ events, e.id ∈ ids ∧ e.groupId = group) :
    ∀ chunk ∈ chunks maxWrites events, c.Within now group ids
      (.store (.batchWrite c.live (chunk.map fun e => .put e.toItem))) := by
  intro chunk hchunk
  refine .write (.inl rfl) ?_ ?_
  · rw [List.length_map]
    exact (length_le_of_mem_chunksUpTo hchunk).1
  · intro w hw
    obtain ⟨e, hmem, rfl⟩ := List.mem_map.mp hw
    obtain ⟨hid, hgroup⟩ := he e (mem_of_mem_chunk hchunk hmem)
    exact .save hid e.text?_toItem (hgroup ▸ e.groupText?_toItem)

/-- Items of the footprint are put into the archive and then deleted. -/
theorem move_completes (hc : c.Fits m.schema) (hq : m.Quiet) {items : List Item}
    (hl : items.length ≤ maxWrites)
    (hids : ∀ item ∈ items, ∃ id ∈ ids, item.text? idName = some id) (w : ω) :
    Task.Completes (confined source c now group ids)
      (do
        writeAll c.archive (items.map .put)
        writeAll c.live ((items.filterMap foundKey?).map .delete))
      (m, w) fun _ s => s.1.Quiet := by
  have harchive : c.Has c.archive := .inr rfl
  have hlive : c.Has c.live := .inl rfl
  have hputs : ∀ w ∈ items.map Write.put, c.Concerns group ids c.archive w := by
    intro w hw
    obtain ⟨item, hitem, rfl⟩ := List.mem_map.mp hw
    obtain ⟨id, hid, ht⟩ := hids item hitem
    exact .keep hid ht
  have hdeletes : ∀ w ∈ (items.filterMap foundKey?).map Write.delete,
      c.Concerns group ids c.live w := by
    intro w hw
    obtain ⟨key, hkey, rfl⟩ := List.mem_map.mp hw
    obtain ⟨item, hitem, hf⟩ := List.mem_filterMap.mp hkey
    obtain ⟨id, hid, ht⟩ := hids item hitem
    rw [foundKey?_of_text? ht] at hf
    exact Option.some.inj hf ▸ .erase hid
  have hput : (items.map Write.put).length ≤ maxWrites := by rwa [List.length_map]
  have hdelete : ((items.filterMap foundKey?).map Write.delete).length ≤ maxWrites := by
    rw [List.length_map]
    exact Nat.le_trans (List.length_filterMap_le ..) hl
  refine (writeAll_completes hq hput (isSome_key? hc harchive hputs)
    (.write harchive hput hputs) w).bind ?_
  rintro _ ⟨m', w'⟩ ⟨hwrote, hq', -⟩
  have hc' : c.Fits m'.schema := hwrote.schema_eq ▸ hc
  refine (writeAll_completes hq' hdelete (isSome_key? hc' hlive hdeletes)
    (.write hlive hdelete hdeletes) w').mono ?_
  rintro _ s ⟨-, hq'', -⟩
  exact hq''

theorem archiveChunk_completes (hc : c.Fits m.schema) (hk : (m.table c.live).Keyed idName)
    (hq : m.Quiet) {chunk : List String} (hl : chunk.length ≤ maxWrites)
    (hids : ∀ id ∈ chunk, id ∈ ids) (w : ω) :
    (c.archiveChunk chunk).Completes (confined source c now group ids) (m, w) fun _ s =>
      s.1.Quiet := by
  have hkeys : ∀ key ∈ chunk.map (Item.key idName), ∃ id ∈ ids, key.text? idName = some id := by
    intro key hkey
    obtain ⟨id, hid, rfl⟩ := List.mem_map.mp hkey
    exact ⟨id, hids id hid, Item.text?_key _ _⟩
  have hlength : (chunk.map (Item.key idName)).length ≤ maxGets := by
    rw [List.length_map]
    exact Nat.le_trans hl (by decide)
  refine (getAll_completes hq hlength (isSome_text? hc hkeys) (.get hlength hkeys) w).bind ?_
  rintro items ⟨m', w'⟩ ⟨hitems, hsame, hq', -⟩
  have hfound : ∀ item ∈ items, ∃ id ∈ ids, item.text? idName = some id := by
    intro item hitem
    rw [hitems] at hitem
    obtain ⟨key, hkey, hf⟩ := List.mem_filterMap.mp hitem
    obtain ⟨id, hid, ht⟩ := hkeys key hkey
    rw [Memory.found, hc.live_key, ht] at hf
    exact ⟨id, hid, hk id item hf⟩
  have hcount : items.length ≤ maxWrites := by
    rw [hitems]
    exact Nat.le_trans (List.length_filterMap_le ..) (by rwa [List.length_map])
  split
  · exact Task.completes_pure hq'
  · exact move_completes (hsame.schema_eq ▸ hc) hq' hcount hfound w'

theorem archiveEvents_completes (hc : c.Fits m.schema) (hk : (m.table c.live).Keyed idName)
    (hq : m.Quiet) {missing : List String} (hids : ∀ id ∈ missing, id ∈ ids) (w : ω) :
    (c.archiveEvents missing).Completes (confined source c now group ids) (m, w) fun _ _ =>
      True := by
  have hall : (c.archiveEvents missing).Completes (confined source c now group ids) (m, w)
      fun _ s => c.Fits s.1.schema ∧ (s.1.table c.live).Keyed idName ∧ s.1.Quiet := by
    refine Task.completes_forM (g := (m, w)) (fun s =>
      c.Fits s.1.schema ∧ (s.1.table c.live).Keyed idName ∧ s.1.Quiet) ⟨hc, hk, hq⟩ ?_
    rintro chunk hchunk ⟨m', w'⟩ ⟨hc', hk', hq'⟩
    have hmem : ∀ id ∈ chunk, id ∈ ids := fun id hid => hids id (mem_of_mem_chunk hchunk hid)
    have hmoves : (c.archiveChunk chunk).Completes (confined source c now group ids) (m', w')
        fun _ s => s.1.Quiet :=
      archiveChunk_completes hc' hk' hq' (length_le_of_mem_chunksUpTo hchunk).1 hmem w'
    refine Task.Completes.mapError ?_
    refine (hmoves.and_ensures (archiveChunk_ensures hc' hk' chunk w')).mono ?_
    rintro _ s ⟨hquiet, hmoved, -⟩
    exact ⟨hmoved.schema_eq ▸ hc', hmoved.keyed hk', hquiet⟩
  exact hall.mono fun _ _ _ => trivial

section Reading

theorem queryFrom_only (q : Query) (pages : Nat) (start : Option Item) :
    (queryFrom q pages start).Ensures (.only fun r => ∃ start, r = .store (.query q start)) ()
      fun _ _ => True := by
  induction pages generalizing start with
  | zero => exact Task.ensures_exhausted _ _
  | succ pages ih =>
    have hpage : (Task.query q start).Ensures
        (.only fun r => ∃ start, r = .store (.query q start)) () fun _ _ => True :=
      Task.ensures_query _ ⟨start, rfl⟩ fun _ _ _ => trivial
    refine hpage.bind ?_
    intro page _ _
    split
    · exact Task.ensures_pure trivial
    · refine (ih _).bind ?_
      intro items _ _
      exact Task.ensures_pure trivial

theorem upcoming_only (c : Catalogue) (pages : Nat) (now : Instant) (group : String) :
    (c.upcoming pages now group).Ensures (.only fun r => ∃ start,
      r = .store (.query (c.rangeQuery group (.after (formatStoredDate now))) start)) ()
      fun _ _ => True := by
  refine (queryFrom_only _ pages none).mapError.bind ?_
  intro items _ _
  exact Task.ensures_ofExcept fun _ _ => trivial

/-- Pages hold matching items only, however long they are. -/
theorem queryFrom_matches (m : Memory) (q : Query) (pages : Nat) (start : Option Item) (w : ω) :
    (queryFrom q pages start).Ensures (session source) (m, w) fun items s =>
      (∀ item ∈ items, item ∈ m.items q.table ∧ m.schema.isMatch q item = true) ∧
        m.Same s.1 ∧ s.2 = w := by
  induction pages generalizing m start with
  | zero => exact Task.ensures_exhausted _ _
  | succ pages ih =>
    have hpage : (Task.query q start).Ensures (session source) (m, w) fun page s =>
        (∀ item ∈ page.items, item ∈ m.items q.table ∧ m.schema.isMatch q item = true) ∧
          m.Same s.1 ∧ s.2 = w := by
      refine Task.ensures_query _ trivial ?_
      rintro page s hr
      obtain ⟨hq, rfl⟩ := Prod.mk.inj hr
      refine ⟨fun item hitem => Schema.mem_matching.mp ?_, m.query_same q start, rfl⟩
      rw [(Memory.query_eq_ok hq).1] at hitem
      exact Schema.mem_of_mem_resume (List.mem_of_mem_take hitem)
    refine hpage.bind ?_
    rintro page ⟨m', w'⟩ ⟨hitems, hsame, rfl⟩
    split
    · exact Task.ensures_pure ⟨hitems, hsame, rfl⟩
    · refine (ih m' _).bind ?_
      rintro items s ⟨hrest, hsame', hw⟩
      refine Task.ensures_pure ⟨?_, hsame.trans hsame', hw⟩
      intro item hitem
      rcases List.mem_append.mp hitem with h | h
      · exact hitems item h
      · have hmatch := hrest item h
        rwa [Memory.items, hsame.schema_eq, hsame.table_eq] at hmatch

/-- What is read of a group is upcoming. -/
theorem upcoming_subset (hi : c.IndexIn m.schema)
    (hs : ∀ item ∈ m.items c.live, Fields.Sorted item) (pages : Nat) (now : Instant)
    (group : String) (w : ω) :
    (c.upcoming pages now group).Ensures (session source) (m, w) fun stored s =>
      stored.map (·.id) ⊆ c.upcomingIds m now group ∧ m.Same s.1 ∧ s.2 = w := by
  refine (queryFrom_matches m _ pages none w).mapError.bind ?_
  rintro items s ⟨hitems, hsame, hw⟩
  refine Task.ensures_ofExcept fun stored hdecode => ⟨?_, hsame, hw⟩
  rw [ids_of_decodeItems (fun item hitem => hs item (hitems item hitem).1) hdecode]
  intro id hid
  obtain ⟨item, hitem, htext⟩ := List.mem_filterMap.mp hid
  obtain ⟨hstored, hmatch⟩ := hitems item hitem
  rw [isMatch_rangeQuery hi] at hmatch
  exact List.mem_filterMap.mpr ⟨item, List.mem_filter.mpr ⟨hstored, hmatch⟩, htext⟩

end Reading

end Catalogue

namespace Import

open Catalogue

variable {c : Catalogue} {now limit : Instant} {group : String} {ids : List String} {pages : Nat}

/-- Whatever has been read, writing completes within the footprint. -/
theorem reconcile_completes (hc : c.Fits m.schema) (hk : m.Keyed) (hq : m.Quiet)
    {stored incoming : List Event} (hstored : ∀ id ∈ stored.map (·.id), id ∈ ids)
    (hincoming : ∀ e ∈ incoming, e.id ∈ ids ∧ e.groupId = group) (now : Instant) (w : ω) :
    Task.Completes (confined source c now group ids)
      (do
        Task.mapError ImportError.upsert (c.upsert incoming)
        Task.mapError .archive (c.archiveEvents (missingIds stored incoming))
        return (⟨group, stored.length, incoming.length, (missingIds stored incoming).length⟩ :
          GroupImport))
      (m, w) fun _ _ => True := by
  refine ((upsert_completes hc hq (within_upsert hincoming) w).and_ensures
    (upsert_ensures c m incoming w)).mapError.bind ?_
  rintro _ ⟨m', w'⟩ ⟨⟨hschema, hq'⟩, hwrote, -⟩
  have hc' : c.Fits m'.schema := hschema ▸ hc
  have hk' : (m'.table c.live).Keyed idName := hc'.live_keyed (hk.of_wrote hwrote)
  have hmissing : ∀ id ∈ missingIds stored incoming, id ∈ ids := by
    intro id hid
    exact hstored id (List.mem_filter.mp hid).1
  refine (archiveEvents_completes hc' hk' hq' hmissing w').mapError.bind ?_
  intro _ _ _
  exact Task.completes_pure trivial

theorem upcoming_confined (h : c.Confines now group ids m)
    (hs : ∀ item ∈ m.items c.live, Fields.Sorted item) (pages : Nat) (w : ω) :
    (c.upcoming pages now group).Ensures (confined source c now group ids) (m, w) fun stored s =>
      (∀ id ∈ stored.map (·.id), id ∈ ids) ∧ m.Same s.1 ∧ s.1.Quiet ∧ s.2 = w := by
  refine (((upcoming_subset h.index hs pages now group w).and
    (quiet_ensures _ h.quiet w)).restrict
    ((upcoming_only c pages now group).only_mono ?_)).mono ?_
  · rintro r ⟨start, rfl⟩
    exact .query
  · rintro stored s ⟨⟨hids, hsame, hw⟩, hq⟩
    exact ⟨fun id hid => h.upcoming (hids hid), hsame, hq, hw⟩

theorem eventsUntil_confined (c : Catalogue) (now : Instant) (ids : List String) (m m' : Memory)
    (pages : Nat) (group : String) (limit : Instant) (w : ω) :
    (Listing.eventsUntil pages group limit).Ensures (confined source c now group ids) (m', w)
      fun incoming s => s.1 = m' ∧
        (Listing.eventsUntil pages group limit).run.run (answer source) (m, w) =
          (.done (.ok incoming), m, s.2) := by
  refine (Task.ensures_run_graphQl (Listing.eventsFrom_graphQl group limit pages none)
    m m' w).restrict ((Listing.eventsFrom_asksFor group limit pages none).only_mono ?_)
  rintro r ⟨cursor, rfl⟩
  exact .page

section Whole

variable (h : c.Confines now group ids m)
  (hs : ∀ item ∈ m.items c.live, Fields.Sorted item) {w : ω}
  (hfetch : ∀ incoming s, (Listing.eventsUntil pages group limit).run.run (answer source) (m, w) =
    (.done (.ok incoming), s) → ∀ e ∈ incoming, e.id ∈ ids ∧ e.groupId = group)

include h hs hfetch

/-- An import keeps to its footprint. -/
theorem importGroup_confined :
    (importGroup c pages now limit group).Ensures (confined source c now group ids) (m, w)
      fun _ _ => True := by
  refine (upcoming_confined h hs pages w).mapError.bind ?_
  rintro stored ⟨m', w'⟩ ⟨hstored, hsame, hq, rfl⟩
  refine (eventsUntil_confined c now ids m m' pages group limit w').mapError.bind ?_
  rintro incoming ⟨_, w''⟩ ⟨rfl, hrun⟩
  exact (reconcile_completes (hsame.schema_eq ▸ h.fits) (h.keyed.of_same hsame) hq hstored
    (hfetch incoming _ hrun) now w'').ensures

/-- An import that does not succeed has written nothing. -/
theorem importGroup_allOrNothing :
    Task.AllOrNothing source (importGroup c pages now limit group) (m, w) := by
  have hqueries : ∀ {ε : Type} {f : CatalogueError → ε},
      (Task.mapError f (c.upcoming pages now group)).Ensures (.only Request.IsReading) ()
        fun _ _ => True := by
    intro ε f
    refine ((upcoming_only c pages now group).only_mono ?_).mapError
    rintro _ ⟨start, rfl⟩ table ws ⟨⟩
  have hpages : ∀ {ε : Type} {f : Listing.ListingError → ε},
      (Task.mapError f (Listing.eventsUntil pages group limit)).Ensures (.only Request.IsReading) ()
        fun _ _ => True := by
    intro ε f
    refine ((Listing.eventsFrom_asksFor group limit pages none).only_mono ?_).mapError
    rintro _ ⟨cursor, rfl⟩ table ws ⟨⟩
  refine Task.AllOrNothing.bind (upcoming_confined h hs pages w).of_restrict.mapError hqueries ?_
  rintro stored ⟨m', w'⟩ ⟨hstored, hsame, hq, rfl⟩
  refine Task.AllOrNothing.bind
    (eventsUntil_confined c now ids m m' pages group limit w').of_restrict.mapError hpages ?_
  rintro incoming ⟨_, w''⟩ ⟨rfl, hrun⟩
  obtain ⟨r, s, hr, -⟩ := (reconcile_completes (hsame.schema_eq ▸ h.fits) (h.keyed.of_same hsame)
    hq hstored (hfetch incoming _ hrun) now w'').of_restrict.exists_run
  refine .inl ?_
  rw [hr]
  rfl

end Whole

end Import

end GroupCalendar
