import GroupCalendar.Proofs.Import.Ledger

/-! # Conduct of a worker

The import of a group requests nothing that its ledger does not justify, and when it succeeds all
that it has listed is saved. Of the surroundings only lawful replies are assumed, so this holds
whatever others do to the store meanwhile.
-/

namespace GroupCalendar

open Store Service Ledger

variable {c : Catalogue} {group table : String} {l : Ledger}

section Batches

theorem pause_conduct (attempt : Nat) (l : Ledger) :
    (pause attempt).Ensures (contract c group) l fun _ l' => l' = l := by
  unfold pause
  split
  · exact Task.ensures_pure rfl
  · refine Task.ensures_wait trivial ?_
    rintro l' ⟨-, rfl⟩
    rfl

theorem batchWrite_conduct {ws : List Write} (hp : ∀ w ∈ ws, l.Permits c table w) :
    (Task.batchWrite table ws).Ensures (contract c group) l fun later l' =>
      ∃ done, ws = done ++ later ∧ l.Grows l' ∧ ∀ w ∈ done, l'.Acknowledges c table w := by
  refine Task.ensures_batchWrite _ hp ?_
  rintro later l' ⟨⟨done, rfl⟩, rfl⟩
  exact ⟨done, rfl, grows_recordWrites .., fun w hw => acknowledges_recordWrites hw⟩

theorem writePending_conduct (left : Nat) {ws : List Write}
    (hp : ∀ w ∈ ws, l.Permits c table w) :
    (writePending table left ws).Ensures (contract c group) l fun _ l' =>
      l.Grows l' ∧ ∀ w ∈ ws, l'.Acknowledges c table w := by
  induction left generalizing l ws with
  | zero =>
    unfold writePending
    split
    · next he =>
      obtain rfl := List.isEmpty_iff.mp he
      exact Task.ensures_pure ⟨.refl l, by simp⟩
    · exact Task.ensures_throw _ _ _
  | succ left ih =>
    unfold writePending
    split
    · next he =>
      obtain rfl := List.isEmpty_iff.mp he
      exact Task.ensures_pure ⟨.refl l, by simp⟩
    · refine (pause_conduct _ l).bind ?_
      rintro _ l rfl
      refine (batchWrite_conduct hp).bind ?_
      rintro later l₁ ⟨done, rfl, hg, hd⟩
      have hlater : ∀ w ∈ later, l₁.Permits c table w := fun w hw =>
        (hp w (List.mem_append_right done hw)).grows hg
      refine (ih hlater).mono ?_
      rintro _ l₂ ⟨hg', hl⟩
      refine ⟨hg.trans hg', ?_⟩
      intro w hw
      rcases List.mem_append.mp hw with h | h
      · exact (hd w h).grows hg'
      · exact hl w h

theorem writeAll_conduct {ws : List Write} (hp : ∀ w ∈ ws, l.Permits c table w) :
    (writeAll table ws).Ensures (contract c group) l fun _ l' =>
      l.Grows l' ∧ ∀ w ∈ ws, l'.Acknowledges c table w :=
  writePending_conduct maxAttempts hp

theorem getPending_conduct (left : Nat) {found keys : List Item} {ids : List String}
    (hf : ∀ item ∈ found, ∃ id ∈ ids, item.text? Catalogue.idName = some id)
    (hk : ∀ key ∈ keys, ∃ id ∈ ids, key.text? Catalogue.idName = some id) :
    (getPending c.live left found keys).Ensures (contract c group) l fun items l' =>
      l' = l ∧ ∀ item ∈ items, ∃ id ∈ ids, item.text? Catalogue.idName = some id := by
  induction left generalizing found keys with
  | zero =>
    unfold getPending
    split
    · exact Task.ensures_pure ⟨rfl, hf⟩
    · exact Task.ensures_throw _ _ _
  | succ left ih =>
    unfold getPending
    split
    · exact Task.ensures_pure ⟨rfl, hf⟩
    · refine (pause_conduct _ l).bind ?_
      rintro _ l rfl
      refine (Task.ensures_batchGet (fun b l' => l' = l ∧ b.unprocessed ⊆ keys ∧
        ∀ item ∈ b.items, ∃ key ∈ keys,
          item.text? Catalogue.idName = key.text? Catalogue.idName) trivial ?_).bind ?_
      · rintro b l' ⟨hb, rfl⟩
        exact ⟨rfl, hb rfl⟩
      · rintro b l ⟨rfl, hu, hi⟩
        refine ih ?_ fun key hkey => hk key (hu hkey)
        intro item hitem
        rcases List.mem_append.mp hitem with h | h
        · exact hf item h
        · obtain ⟨key, hkey, ht⟩ := hi item h
          rw [ht]
          exact hk key hkey

theorem getAll_conduct (ids : List String) :
    (getAll c.live (ids.map (Item.key Catalogue.idName))).Ensures (contract c group) l
      fun items l' =>
        l' = l ∧ ∀ item ∈ items, ∃ id ∈ ids, item.text? Catalogue.idName = some id := by
  refine getPending_conduct maxAttempts (by simp) ?_
  intro key hkey
  obtain ⟨id, hid, rfl⟩ := List.mem_map.mp hkey
  exact ⟨id, hid, Item.text?_key _ id⟩

end Batches

namespace Catalogue

section Reading

theorem readable_append (items items' : List Item) :
    readable (items ++ items') = readable items ++ readable items' :=
  List.filterMap_append

theorem queryFrom_conduct (q : Query) (pages : Nat) (start : Option Item) (l : Ledger) :
    (queryFrom q pages start).Ensures (contract c group) l fun items l' =>
      l' = { l with read := l.read ++ readable items } := by
  induction pages generalizing start l with
  | zero => exact Task.ensures_exhausted _ _
  | succ pages ih =>
    refine (Task.ensures_query (fun page l' =>
      l' = { l with read := l.read ++ readable page.items }) trivial ?_).bind ?_
    · rintro page l' ⟨-, rfl⟩
      rfl
    · rintro page _ rfl
      split
      · exact Task.ensures_pure rfl
      · refine (ih _ _).bind ?_
        rintro items _ rfl
        refine Task.ensures_pure ?_
        rw [readable_append, List.append_assoc]

/-- All that has been read is known to the worker. -/
theorem upcoming_conduct (c : Catalogue) (pages : Nat) (now : Instant) (l : Ledger) :
    (c.upcoming pages now group).Ensures (contract c group) l fun events l' =>
      l' = { l with read := l.read ++ events } := by
  refine (queryFrom_conduct _ pages none l).mapError.bind ?_
  rintro items _ rfl
  refine Task.ensures_ofExcept ?_
  intro events he
  rw [eq_readable he]

end Reading

section Writing

/-- All of the events have been saved. -/
theorem upsert_conduct {events : List Event} (he : ∀ e ∈ events, e ∈ l.listed) :
    (c.upsert events).Ensures (contract c group) l fun _ l' =>
      l.Grows l' ∧ ∀ e ∈ events, e.id ∈ l'.saved := by
  have h : (c.upsert events).Ensures (contract c group) l fun _ l' =>
      l.Grows l' ∧ ∀ e ∈ (chunks maxWrites events).flatten, e.id ∈ l'.saved := by
    refine Task.ensures_forM (g := l) (chunks maxWrites events) (fun done l' =>
      l.Grows l' ∧ ∀ e ∈ done.flatten, e.id ∈ l'.saved) ⟨.refl l, by simp⟩ ?_
    rintro done chunk rest l₁ hsplit ⟨hg, hd⟩
    have hmem : ∀ e ∈ chunk, e ∈ events := fun e => mem_of_mem_chunk (by simp [hsplit])
    have hp : ∀ w ∈ chunk.map fun e => Write.put e.toItem, l₁.Permits c c.live w := by
      intro w hw
      obtain ⟨e, hm, rfl⟩ := List.mem_map.mp hw
      exact .save (hg.listed_eq ▸ he e (hmem e hm))
    refine (writeAll_conduct hp).mapError.mono ?_
    rintro _ l₂ ⟨hg', hack⟩
    refine ⟨hg.trans hg', ?_⟩
    intro e hm
    rw [List.flatten_append, List.flatten_singleton] at hm
    rcases List.mem_append.mp hm with h | h
    · exact hg'.saved_subset (hd e h)
    · exact (hack _ (List.mem_map_of_mem h) e.id e.text?_toItem).1 rfl
  rwa [flatten_chunks events (by decide)] at h

/-- Only ids that were read and are not listed are deleted, and only when archived. -/
theorem archiveChunk_conduct {ids : List String}
    (hids : ∀ id ∈ ids, id ∈ l.read.map (·.id) ∧ id ∉ l.listed.map (·.id)) :
    (c.archiveChunk ids).Ensures (contract c group) l fun _ l' => l.Grows l' := by
  refine (getAll_conduct ids).bind ?_
  rintro items l ⟨rfl, hitems⟩
  split
  · exact Task.ensures_pure (.refl l)
  · have hput : ∀ w ∈ items.map Write.put, l.Permits c c.archive w := by
      intro w hw
      obtain ⟨item, hm, rfl⟩ := List.mem_map.mp hw
      obtain ⟨id, -, ht⟩ := hitems item hm
      exact .keep (Option.isSome_of_eq_some ht)
    refine (writeAll_conduct hput).bind ?_
    rintro _ l₁ ⟨hg, hack⟩
    have hdelete : ∀ w ∈ (items.filterMap foundKey?).map Write.delete, l₁.Permits c c.live w := by
      intro w hw
      obtain ⟨key, hkey, rfl⟩ := List.mem_map.mp hw
      obtain ⟨item, hm, hf⟩ := List.mem_filterMap.mp hkey
      obtain ⟨id, hid, ht⟩ := hitems item hm
      rw [foundKey?_of_text? ht] at hf
      obtain rfl := Option.some.inj hf
      obtain ⟨hr, hl⟩ := hids id hid
      have ha : id ∈ l₁.archived := (hack _ (List.mem_map_of_mem hm) id ht).2 rfl
      exact .erase ha (hg.read_eq ▸ hr) (hg.listed_eq ▸ hl)
    refine (writeAll_conduct hdelete).mono ?_
    rintro _ l₂ ⟨hg', -⟩
    exact hg.trans hg'

theorem archiveEvents_conduct {ids : List String}
    (hids : ∀ id ∈ ids, id ∈ l.read.map (·.id) ∧ id ∉ l.listed.map (·.id)) :
    (c.archiveEvents ids).Ensures (contract c group) l fun _ l' => l.Grows l' := by
  refine Task.ensures_forM (g := l) (chunks maxWrites ids) (fun _ l' => l.Grows l') (.refl l) ?_
  rintro done chunk rest l₁ hsplit hg
  have hmem : ∀ id ∈ chunk, id ∈ ids := fun id => mem_of_mem_chunk (by simp [hsplit])
  have hchunk : ∀ id ∈ chunk, id ∈ l₁.read.map (·.id) ∧ id ∉ l₁.listed.map (·.id) := by
    intro id hm
    rw [hg.read_eq, hg.listed_eq]
    exact hids id (hmem id hm)
  refine (archiveChunk_conduct hchunk).mapError.mono ?_
  rintro _ l₂ hg'
  exact hg.trans hg'

end Writing

end Catalogue

namespace Listing

theorem fetchPage_conduct {cursor : Option String} (he : l.erased = []) :
    (fetchPage group cursor).Ensures (contract c group) l fun p l' =>
      l' = { l with listed := l.listed ++ p.events } := by
  have hx : (Task.graphQl pageQuery (pageVariables group cursor)).Ensures (contract c group) l
      fun x l' => l' = { l with listed := l.listed ++ listedIn group x } := by
    refine Task.ensures_graphQl _ he ?_
    rintro x l' ⟨-, rfl⟩
    rfl
  refine hx.mapError.bind ?_
  rintro x _ rfl
  refine Task.ensures_ofExcept ?_
  intro p hp
  simp only [listedIn, hp]

/-- All that has been listed is known to the worker. -/
theorem eventsFrom_conduct (limit : Instant) (pages : Nat) {cursor : Option String}
    (he : l.erased = []) :
    (eventsFrom group limit pages cursor).Ensures (contract c group) l fun events l' =>
      l' = { l with listed := l.listed ++ events } := by
  induction pages generalizing cursor l with
  | zero => exact Task.ensures_exhausted _ _
  | succ pages ih =>
    refine (fetchPage_conduct he).bind ?_
    rintro p _ rfl
    split
    · exact Task.ensures_pure rfl
    · split
      · exact Task.ensures_pure rfl
      · refine (ih (l := { l with listed := l.listed ++ p.events }) he).bind ?_
        rintro events _ rfl
        refine Task.ensures_pure ?_
        rw [List.append_assoc]

end Listing

namespace Import

theorem mem_missingIds {stored incoming : List Event} {id : String} :
    id ∈ missingIds stored incoming ↔ id ∈ stored.map (·.id) ∧ id ∉ incoming.map (·.id) := by
  rw [missingIds, List.mem_filter, Bool.not_eq_true', ← Bool.not_eq_true, Event.any_id_iff]

/-- A worker keeps its contract from an empty ledger on, and saves all that it lists. -/
theorem importGroup_conduct (c : Catalogue) (pages : Nat) (now limit : Instant) (group : String) :
    (importGroup c pages now limit group).Ensures (contract c group) {} fun _ l => l.Settled := by
  refine (Catalogue.upcoming_conduct c pages now {}).mapError.bind ?_
  rintro stored _ rfl
  refine (Listing.eventsFrom_conduct limit pages rfl).mapError.bind ?_
  rintro incoming _ rfl
  refine (Catalogue.upsert_conduct fun e he => List.mem_append_right _ he).mapError.bind ?_
  rintro _ l₁ ⟨hg, hsaved⟩
  have hmissing : ∀ id ∈ missingIds stored incoming,
      id ∈ l₁.read.map (·.id) ∧ id ∉ l₁.listed.map (·.id) := by
    intro id hid
    rw [hg.read_eq, hg.listed_eq]
    exact mem_missingIds.mp hid
  refine (Catalogue.archiveEvents_conduct hmissing).mapError.bind ?_
  intro _ l₂ hg'
  refine Task.ensures_pure ?_
  intro e he
  rw [hg'.listed_eq, hg.listed_eq] at he
  exact hg'.saved_subset (hsaved e he)

end Import

end GroupCalendar
