import GroupCalendar.Proofs.Import.Confinement
import GroupCalendar.Proofs.Program.Returns
import GroupCalendar.Proofs.Store.Pages
import Mathlib.Data.List.Nodup
import Mathlib.Data.List.Perm.Subperm
import Mathlib.Data.Option.Basic

/-! # Batches of the catalogue

A store takes a batch if it is not empty, not too long, and names no id twice. What the catalogue
sends is never empty and never too long, first or again. No id is named twice exactly if none is
repeated within a chunk of the list that is saved or archived.
-/

namespace GroupCalendar.Catalogue

open Store Service

variable {ε ε' α : Type} {c : Catalogue} {ok : List (Option String) → Prop}

section Contract

/-- The ids of the entries of a batch. -/
def batchIds? : Service.Request → Option (List (Option String))
  | .store (.batchGet _ keys) => some (keys.map (·.text? idName))
  | .store (.batchWrite _ ws) => some (ws.map (·.key? idName))
  | _ => none

/-- What is handed back of a batch, or found in the live table, was named in the batch, and no more
often than there. -/
def Lawful (c : Catalogue) : (r : Service.Request) → Service.Reply r → Prop
  | .store (.batchGet table keys), .ok b => table = c.live →
      ((b.items ++ b.unprocessed).map (·.text? idName)).Subperm (keys.map (·.text? idName))
  | .store (.batchWrite _ ws), .ok later =>
      (later.map (·.key? idName)).Subperm (ws.map (·.key? idName))
  | _, _ => True

/-- A batch is not empty, and its ids satisfy a condition. -/
def Takes (ok : List (Option String) → Prop) (r : Service.Request) : Prop :=
  ∀ ids, batchIds? r = some ids → ids ≠ [] ∧ ok ids

/-- Batches are allowed on some condition, and any lawful reply may come. -/
def batches (c : Catalogue) (ok : List (Option String) → Prop) : Contract signature Unit where
  allows r _ := Takes ok r
  replies r _ reply _ := c.Lawful r reply

/-- The ids of all batches of a task satisfy a condition, whatever lawful replies come. -/
def Sends (c : Catalogue) (ok : List (Option String) → Prop) (t : Task ε α) : Prop :=
  t.Ensures (c.batches ok) () fun _ _ => True

/-- A condition on ids that any part of what meets it meets as well. -/
def Inherited (ok : List (Option String) → Prop) : Prop :=
  ∀ ids ids', ids'.Subperm ids → ok ids → ok ids'

/-- Not more ids than a batch may hold. -/
def Short (ids : List (Option String)) : Prop := ids.length ≤ maxWrites

/-- Not more ids than a batch may hold, and each once. -/
def Admissible (ids : List (Option String)) : Prop := Short ids ∧ ids.Nodup

theorem inherited_short : Inherited Short := by
  intro ids ids' hpart hshort
  exact Nat.le_trans hpart.length_le hshort

theorem inherited_admissible : Inherited Admissible := by
  rintro ids ids' hpart ⟨hshort, hnodup⟩
  refine ⟨inherited_short ids ids' hpart hshort, ?_⟩
  obtain ⟨part, hperm, hsub⟩ := hpart
  exact hperm.nodup_iff.mp (hnodup.sublist hsub)

end Contract

section Loops

theorem pause_sends (attempt : Nat) : c.Sends ok (pause attempt) := by
  unfold pause
  split
  · exact Task.ensures_pure trivial
  · exact Task.ensures_wait (fun _ he => nomatch he) fun _ _ => trivial

/-- What is sent again is a part of what was sent. -/
theorem writePending_sends (hok : Inherited ok) (table : String) (left : Nat) {ws : List Write}
    (h : ok (ws.map (·.key? idName))) : c.Sends ok (writePending table left ws) := by
  induction left generalizing ws with
  | zero =>
    unfold writePending
    split
    · exact Task.ensures_pure trivial
    · exact Task.ensures_throw _ _ _
  | succ left ih =>
    unfold writePending
    split
    · exact Task.ensures_pure trivial
    · next he =>
      refine (pause_sends _).bind fun _ _ _ => ?_
      refine (Task.ensures_batchWrite
        (fun later _ => (later.map (·.key? idName)).Subperm (ws.map (·.key? idName))) ?_ ?_).bind ?_
      · rintro ids ⟨⟩
        exact ⟨fun hnil => he (List.isEmpty_iff.mpr (List.map_eq_nil_iff.mp hnil)), h⟩
      · exact fun later _ hlawful => hlawful
      · exact fun later _ hpart => ih (hok _ _ hpart h)

/-- What has been found and what is asked for again are together a part of what was asked for. -/
theorem getPending_sends (hok : Inherited ok) (left : Nat) {found keys : List Item}
    {ids : List (Option String)} (h : ((found ++ keys).map (·.text? idName)).Subperm ids)
    (hids : ok ids) :
    (getPending c.live left found keys).Ensures (c.batches ok) () fun items _ =>
      (items.map (·.text? idName)).Subperm ids := by
  have hfound : ∀ {found keys : List Item}, ((found ++ keys).map (·.text? idName)).Subperm ids →
      (found.map (·.text? idName)).Subperm ids := fun h =>
    ((List.sublist_append_left _ _).map _).subperm.trans h
  induction left generalizing found keys with
  | zero =>
    unfold getPending
    split
    · exact Task.ensures_pure (hfound h)
    · exact Task.ensures_throw _ _ _
  | succ left ih =>
    unfold getPending
    split
    · exact Task.ensures_pure (hfound h)
    · next he =>
      have hkeys : (keys.map (·.text? idName)).Subperm ids :=
        ((List.sublist_append_right found keys).map _).subperm.trans h
      refine (pause_sends _).bind fun _ _ _ => ?_
      refine (Task.ensures_batchGet (fun b _ => ((b.items ++ b.unprocessed).map
        (·.text? idName)).Subperm (keys.map (·.text? idName))) ?_ ?_).bind ?_
      · rintro ids ⟨⟩
        exact ⟨fun hnil => he (List.isEmpty_iff.mpr (List.map_eq_nil_iff.mp hnil)),
          hok _ _ hkeys hids⟩
      · exact fun b _ hlawful => hlawful rfl
      · intro b _ hpart
        refine ih (List.Subperm.trans ?_ h)
        rw [List.append_assoc, List.map_append, @List.map_append _ _ _ found keys]
        exact (List.subperm_append_left _).mpr hpart

theorem map_key?_puts (items : List Item) :
    (items.map Write.put).map (·.key? idName) = items.map (·.text? idName) := by
  rw [List.map_map]
  rfl

/-- The items found have ids, and are deleted under these. -/
theorem map_key?_deletes {items : List Item} (h : ∀ item ∈ items, (item.text? idName).isSome) :
    ((items.filterMap foundKey?).map Write.delete).map (·.key? idName) =
      items.map (·.text? idName) := by
  induction items with
  | nil => rfl
  | cons item items ih =>
    obtain ⟨hitem, hitems⟩ := List.forall_mem_cons.mp h
    obtain ⟨id, hid⟩ := Option.isSome_iff_exists.mp hitem
    rw [List.filterMap_cons, foundKey?_of_text? hid, List.map_cons, List.map_cons, ih hitems,
      List.map_cons, hid]
    congr 1

theorem map_text?_keys (ids : List String) :
    (ids.map (Item.key idName)).map (·.text? idName) = ids.map some := by
  rw [List.map_map]
  exact List.map_congr_left fun id _ => Item.text?_key idName id

theorem archiveChunk_sends (hok : Inherited ok) {ids : List String} (h : ok (ids.map some)) :
    c.Sends ok (c.archiveChunk ids) := by
  have hget : (getAll c.live (ids.map (Item.key idName))).Ensures (c.batches ok) ()
      fun items _ => (items.map (·.text? idName)).Subperm (ids.map some) :=
    getPending_sends hok maxAttempts (map_text?_keys ids ▸ .refl _) h
  refine hget.bind fun items _ hpart => ?_
  have hitems : ok (items.map (·.text? idName)) := hok _ _ hpart h
  have hsome : ∀ item ∈ items, (item.text? idName).isSome := by
    intro item hitem
    obtain ⟨id, -, hid⟩ := List.mem_map.mp (hpart.subset (List.mem_map_of_mem hitem))
    rw [← hid]
    rfl
  split
  · exact Task.ensures_pure trivial
  · have hput : c.Sends ok (writeAll c.archive (items.map .put)) :=
      writePending_sends hok c.archive maxAttempts (by rwa [map_key?_puts])
    refine hput.bind fun _ _ _ => ?_
    exact writePending_sends hok c.live maxAttempts (by rwa [map_key?_deletes hsome])

end Loops

section Chunks

/-- Some lawful replies let the task end with this value. -/
def MayReturn (c : Catalogue) (ok : List (Option String) → Prop) (t : Task ε α) (a : α) : Prop :=
  ∀ post : α → Unit → Prop, t.Ensures (c.batches ok) () post → post a ()

/-- A loop whose passes may all succeed comes to every one of them. -/
theorem sends_forM_iff {β : Type} {xs : List β} {f : β → Task ε Unit}
    (h : ∀ x ∈ xs, c.MayReturn ok (f x) ()) :
    c.Sends ok (xs.forM f) ↔ ∀ x ∈ xs, c.Sends ok (f x) := by
  constructor
  · intro hall
    induction xs with
    | nil => exact nofun
    | cons x rest ih =>
      have hbind : (f x).Ensures (c.batches ok) () fun _ _ => c.Sends ok (rest.forM f) :=
        Task.ensures_bind.mp hall
      have hrest : c.Sends ok (rest.forM f) := h x List.mem_cons_self _ hbind
      refine List.forall_mem_cons.mpr ⟨hbind.mono fun _ _ _ => trivial, ?_⟩
      exact ih (fun y hy => h y (List.mem_cons_of_mem x hy)) hrest
  · intro heach
    refine Task.ensures_forM (g := ()) xs (fun _ _ => True) trivial ?_
    rintro done x rest _ rfl -
    exact heach x (by simp)

theorem MayReturn.mapError {t : Task ε α} {a : α} (h : c.MayReturn ok t a) (f : ε → ε') :
    c.MayReturn ok (Task.mapError f t) a :=
  fun post hpost => h post (Task.ensures_mapError.mp hpost)

theorem writeAll_mayReturn (table : String) (ws : List Write) :
    c.MayReturn ok (writeAll table ws) () := by
  intro post h
  cases ws with
  | nil => exact h () rfl
  | cons w ws => exact h.2 (.ok []) () List.nil_subperm () rfl

theorem archiveChunk_mayReturn (ids : List String) : c.MayReturn ok (c.archiveChunk ids) () := by
  intro post h
  cases ids with
  | nil => exact h () rfl
  | cons id ids => exact h.2 (.ok ⟨[], []⟩) () (fun _ => List.nil_subperm) () rfl

theorem ok_of_writeAll {table : String} {ws : List Write} (hne : ws ≠ [])
    (h : c.Sends ok (writeAll table ws)) : ok (ws.map (·.key? idName)) := by
  cases ws with
  | nil => exact absurd rfl hne
  | cons w ws => exact (h.1 _ rfl).2

theorem ok_of_archiveChunk {ids : List String} (hne : ids ≠ [])
    (h : c.Sends ok (c.archiveChunk ids)) : ok (ids.map some) := by
  rw [← map_text?_keys]
  cases ids with
  | nil => exact absurd rfl hne
  | cons id ids => exact (h.1 _ rfl).2

theorem mem_chunks {β : Type} {xs chunk : List β} (h : chunk ∈ chunks maxWrites xs) :
    chunk.length ≤ maxWrites ∧ chunk ≠ [] := by
  obtain ⟨hlength, hne⟩ := length_le_of_mem_chunksUpTo h
  exact ⟨hlength, hne (by decide)⟩

/-- What saving sends are the ids of the chunks and parts of them. -/
theorem upsert_sends_iff (hok : Inherited ok) {events : List Event} :
    c.Sends ok (c.upsert events) ↔
      ∀ chunk ∈ chunks maxWrites events, ok ((chunk.map (·.id)).map some) := by
  have hids : ∀ chunk : List Event, (chunk.map fun e => Write.put e.toItem).map (·.key? idName) =
      (chunk.map (·.id)).map some := by
    intro chunk
    rw [List.map_map, List.map_map]
    exact List.map_congr_left fun e _ => e.text?_toItem
  refine (sends_forM_iff fun chunk _ => (writeAll_mayReturn _ _).mapError _).trans ?_
  refine forall₂_congr fun chunk hchunk => ?_
  rw [← hids]
  constructor
  · intro h
    refine ok_of_writeAll ?_ (Task.ensures_mapError.mp h)
    simpa using (mem_chunks hchunk).2
  · intro h
    exact Task.Ensures.mapError (writePending_sends hok c.live maxAttempts h)

/-- What archiving sends are the ids of the chunks and parts of them. -/
theorem archiveEvents_sends_iff (hok : Inherited ok) {ids : List String} :
    c.Sends ok (c.archiveEvents ids) ↔ ∀ chunk ∈ chunks maxWrites ids, ok (chunk.map some) := by
  refine (sends_forM_iff fun chunk _ => (archiveChunk_mayReturn chunk).mapError _).trans ?_
  refine forall₂_congr fun chunk hchunk => ?_
  constructor
  · intro h
    exact ok_of_archiveChunk (mem_chunks hchunk).2 (Task.ensures_mapError.mp h)
  · intro h
    exact Task.Ensures.mapError (archiveChunk_sends hok h)

theorem admissible_iff {ids : List String} (h : ids.length ≤ maxWrites) :
    Admissible (ids.map some) ↔ ids.Nodup := by
  rw [Admissible, Short, List.length_map, List.nodup_map_iff (Option.some_injective String)]
  exact and_iff_right h

/-- No chunk of a list without repetition repeats anything. -/
theorem nodup_of_mem_chunks {β : Type} {xs chunk : List β} (hxs : xs.Nodup)
    (h : chunk ∈ chunks maxWrites xs) : chunk.Nodup := by
  rw [← flatten_chunks xs (by decide : 0 < maxWrites)] at hxs
  exact (List.nodup_flatten.mp hxs).1 chunk h

end Chunks

section Session

variable {ω : Type} {source : Source ω} {m : Memory} {now : Instant} {group : String}

/-- No id is upcoming twice. -/
theorem nodup_upcomingIds (hk : (m.table c.live).Keyed idName) (now : Instant) (group : String) :
    (c.upcomingIds m now group).Nodup := by
  refine List.Pairwise.filterMap _ ?_ ((Schema.distinct_items hk).filter _)
  rintro item item' hne id hid _ hid' rfl
  exact hne (hid.trans hid'.symm)

/-- A store in memory finds items under the ids that it is asked for. -/
theorem found_text (hc : c.Fits m.schema) (hk : m.Keyed) {key item : Item}
    (h : m.found c.live key = some item) : item.text? idName = key.text? idName := by
  rw [Memory.found, hc.live_key] at h
  obtain ⟨id, hid, hitem⟩ := Option.bind_eq_some_iff.mp h
  exact (hc.live_keyed hk id item hitem).trans hid.symm

theorem found_subperm (hc : c.Fits m.schema) (hk : m.Keyed) (keys later : List Item) :
    ((keys.filterMap (m.found c.live) ++ later).map (·.text? idName)).Subperm
      ((keys ++ later).map (·.text? idName)) := by
  rw [List.map_append, List.map_append]
  refine (List.subperm_append_right _).mpr (List.Sublist.subperm ?_)
  induction keys with
  | nil => exact List.Sublist.refl _
  | cons key keys ih =>
    rw [List.filterMap_cons, List.map_cons]
    split
    · exact ih.cons _
    · next item hitem =>
      rw [List.map_cons, found_text hc hk hitem]
      exact ih.cons_cons _

/-- The replies of a session are lawful. -/
theorem lawful_answer (source : Source ω) (hc : c.Fits m.schema) (hk : m.Keyed)
    (r : Service.Request) (w : ω) : c.Lawful r (answer source r (m, w)).1 := by
  match r with
  | .wait _ | .graphQl .. => trivial
  | .store (.query ..) | .store (.getItem ..) => trivial
  | .store (.batchGet table keys) =>
    change c.Lawful (.store (.batchGet table keys)) (m.batchGet table keys).1
    cases hreply : (m.batchGet table keys).1 with
    | error e => trivial
    | ok b =>
      rintro rfl
      obtain ⟨front, hkeys, hitems⟩ := (m.batchGet_found c.live keys).2 b hreply
      rw [hitems]
      exact hkeys ▸ found_subperm hc hk front b.unprocessed
  | .store (.batchWrite table ws) =>
    change c.Lawful (.store (.batchWrite table ws)) (m.batchWrite table ws).1
    cases hreply : (m.batchWrite table ws).1 with
    | error e => trivial
    | ok later =>
      obtain ⟨done, -, -, hlater⟩ := m.batchWrite_wrote table ws
      obtain rfl := hlater later hreply
      exact ((List.sublist_append_right done later).map _).subperm

theorem keeps_answer (source : Source ω) (hc : c.Fits m.schema) (hk : m.Keyed)
    (r : Service.Request) (w : ω) :
    c.Fits (answer source r (m, w)).2.1.schema ∧ (answer source r (m, w)).2.1.Keyed := by
  cases r with
  | store r =>
    refine ⟨?_, hk.answer r⟩
    rw [show (answer source (.store r) (m, w)).2.1 = (m.answer r).2 from rfl, m.schema_answer r]
    exact hc
  | graphQl query arguments | wait millis => exact ⟨hc, hk⟩

/-- What a program sends whatever lawful replies come, it sends in a session. -/
theorem meets_in_session {p : Program signature α} {post : α → Unit → Prop}
    (h : p.Meets (c.batches ok) () post) (hc : c.Fits m.schema) (hk : m.Keyed) (w : ω) :
    p.Meets ((session source).restrict (Takes ok)) (m, w) fun _ s =>
      c.Fits s.1.schema ∧ s.1.Keyed := by
  induction p generalizing m w with
  | done a => exact ⟨hc, hk⟩
  | broken | exhausted => trivial
  | ask r next ih =>
    refine ⟨⟨trivial, h.1⟩, ?_⟩
    rintro reply s hreply
    have hlawful := lawful_answer source hc hk r w
    have hkeeps := keeps_answer source hc hk r w
    rw [show answer source r (m, w) = (reply, s) from hreply] at hlawful hkeeps
    exact ih reply (h.2 reply () hlawful) hkeeps.1 hkeeps.2 s.2

theorem Sends.in_session {t : Task ε α} (h : c.Sends ok t) (hc : c.Fits m.schema) (hk : m.Keyed)
    (w : ω) : t.Ensures ((session source).restrict (Takes ok)) (m, w) fun _ s =>
      c.Fits s.1.schema ∧ s.1.Keyed :=
  (meets_in_session h hc hk w).mono fun _ _ hs _ _ => hs

end Session

section Import

open Import

variable {ω : Type} {source : Source ω} {m : Memory}

/-- The ids that are archived for what has been read in one go are admissible. -/
theorem missingIds_admissible {stored : List Event} {now : Instant} {group : String}
    (hk : (m.table c.live).Keyed idName)
    (h : (stored.map (·.id)).Perm (c.upcomingIds m now group)) (incoming : List Event) :
    c.Sends Admissible (c.archiveEvents (missingIds stored incoming)) := by
  have hnodup : (missingIds stored incoming).Nodup :=
    (h.nodup_iff.mpr (nodup_upcomingIds hk now group)).filter _
  refine (archiveEvents_sends_iff inherited_admissible).mpr fun chunk hchunk => ?_
  exact (admissible_iff (mem_chunks hchunk).1).mpr (nodup_of_mem_chunks hnodup hchunk)

/-- What an import sends in a session is admissible if the listing repeats no id within a chunk. -/
theorem importGroup_admissible (hc : c.Fits m.schema) (hi : c.IndexIn m.schema) (hk : m.Keyed)
    (hp : 0 < m.schema.pageSize) (hs : ∀ item ∈ m.items c.live, Fields.Sorted item) {pages : Nat}
    {now limit : Instant} {group : String} {w : ω}
    (hlisted : ∀ incoming s, (Listing.eventsUntil pages group limit).run.run (answer source)
      (m, w) = (.done (.ok incoming), s) →
      ∀ chunk ∈ chunks maxWrites incoming, (chunk.map (·.id)).Nodup) :
    (importGroup c pages now limit group).Ensures ((session source).restrict (Takes Admissible))
      (m, w) fun _ _ => True := by
  have hqueries : (c.upcoming pages now group).Ensures (.only (Takes Admissible)) ()
      fun _ _ => True := by
    refine (upcoming_only c pages now group).only_mono ?_
    rintro r ⟨start, rfl⟩ ids ⟨⟩
  have hpages : (Listing.eventsUntil pages group limit).Ensures (.only (Takes Admissible)) ()
      fun _ _ => True := by
    refine (Listing.eventsFrom_asksFor group limit pages none).only_mono ?_
    rintro r ⟨cursor, rfl⟩ ids ⟨⟩
  refine ((upcoming_ensures hi hk hp hs pages now group w).restrict hqueries).mapError.bind ?_
  rintro stored ⟨m₁, w₁⟩ ⟨hids, -, hsame, rfl⟩
  refine ((Task.ensures_run_graphQl (Listing.eventsFrom_graphQl group limit pages none)
    m m₁ w₁).restrict hpages).mapError.bind ?_
  rintro incoming ⟨m₂, w₂⟩ ⟨rfl, hrun⟩
  have hsave : c.Sends Admissible (c.upsert incoming) := by
    refine (upsert_sends_iff inherited_admissible).mpr fun chunk hchunk => ?_
    have hlength : (chunk.map (·.id)).length ≤ maxWrites := by
      rw [List.length_map]
      exact (mem_chunks hchunk).1
    exact (admissible_iff hlength).mpr (hlisted incoming _ hrun chunk hchunk)
  refine (hsave.in_session (hsame.schema_eq ▸ hc) (hk.of_same hsame) w₂).mapError.bind ?_
  rintro _ ⟨m₃, w₃⟩ ⟨hc₃, hk₃⟩
  have hmove := missingIds_admissible (hc.live_keyed hk) hids incoming
  refine (hmove.in_session hc₃ hk₃ w₃).mapError.bind ?_
  intro _ _ _
  exact Task.ensures_pure trivial

/-- Whatever lawful replies come, no batch of saving or archiving is empty or too long, and none
names an id twice exactly if no chunk of the list repeats one. When the stored events have been read
with nobody else writing, no id is repeated in what is archived for them. -/
theorem batches_admissible_iff (c : Catalogue) :
    (∀ events, c.Sends Short (c.upsert events) ∧
      (c.Sends Admissible (c.upsert events) ↔
        ∀ chunk ∈ chunks maxWrites events, (chunk.map (·.id)).Nodup)) ∧
    (∀ ids, c.Sends Short (c.archiveEvents ids) ∧
      (c.Sends Admissible (c.archiveEvents ids) ↔
        ∀ chunk ∈ chunks maxWrites ids, chunk.Nodup)) ∧
    ∀ {m : Memory}, c.Fits m.schema → c.IndexIn m.schema → m.Keyed → 0 < m.schema.pageSize →
      (∀ item ∈ m.items c.live, Fields.Sorted item) → ∀ (pages now group) (w : ω),
      (c.upcoming pages now group).Ensures (session source) (m, w) fun stored _ =>
        ∀ incoming, c.Sends Admissible (c.archiveEvents (missingIds stored incoming)) := by
  have hlength : ∀ {events chunk : List Event}, chunk ∈ chunks maxWrites events →
      (chunk.map (·.id)).length ≤ maxWrites := by
    intro events chunk hchunk
    rw [List.length_map]
    exact (mem_chunks hchunk).1
  refine ⟨fun events => ⟨?_, ?_⟩, fun ids => ⟨?_, ?_⟩, ?_⟩
  · refine (upsert_sends_iff inherited_short).mpr fun chunk hchunk => ?_
    rw [Short, List.length_map]
    exact hlength hchunk
  · refine (upsert_sends_iff inherited_admissible).trans ?_
    exact forall₂_congr fun chunk hchunk => admissible_iff (hlength hchunk)
  · refine (archiveEvents_sends_iff inherited_short).mpr fun chunk hchunk => ?_
    rw [Short, List.length_map]
    exact (mem_chunks hchunk).1
  · refine (archiveEvents_sends_iff inherited_admissible).trans ?_
    exact forall₂_congr fun chunk hchunk => admissible_iff (mem_chunks hchunk).1
  · intro m hc hi hk hp hs pages now group w
    refine (upcoming_ensures hi hk hp hs pages now group w).mono ?_
    rintro stored s ⟨hids, -⟩
    exact missingIds_admissible (hc.live_keyed hk) hids

section Sample

/-- An id that is repeated, but not within a chunk. -/
def apartEvents : List Event :=
  (List.range 26).map fun n => { id := toString (n % 25), groupId := "a" }

theorem batches_admissible_iff_sample :
    sampleCatalogue.Sends Admissible (sampleCatalogue.upsert apartEvents) ∧
    ∃ stored, ((sampleCatalogue.upcoming 2 sampleNow "a").run.run (answer listedSample)
        (storedSample, ())).1.value? = some stored ∧ stored.map (·.id) = ["gone"] ∧
      sampleCatalogue.Sends Admissible
        (sampleCatalogue.archiveEvents (missingIds stored [])) := by
  obtain ⟨hsave, -, hread⟩ := @batches_admissible_iff Unit listedSample sampleCatalogue
  refine ⟨(hsave apartEvents).2.mpr (by decide +kernel), ?_⟩
  have hc : sampleCatalogue.Fits storedSample.schema := ⟨rfl, rfl, by decide⟩
  have hs : ∀ item ∈ storedSample.items sampleCatalogue.live, Fields.Sorted item := by
    decide +kernel
  have hids : (((sampleCatalogue.upcoming 2 sampleNow "a").run.run (answer listedSample)
      (storedSample, ())).1.value?.map (·.map (·.id))) = some ["gone"] := by decide +kernel
  obtain ⟨stored, hstored, hids⟩ := Option.map_eq_some_iff.mp hids
  have hmissing := (hread hc rfl (keyed_sampleMemory _ _) (by decide) hs 2 sampleNow "a" ()).of_run
    (Prod.ext (Outcome.eq_of_value? hstored) rfl)
  exact ⟨stored, hstored, hids, hmissing []⟩

/-- One id is listed twice. -/
def twiceListed : Source Unit := sampleSite fun _ _ =>
  sampleAnswer [sampleEdge "x" "a" "2025-05-01T10:00+00:00",
    sampleEdge "x" "a" "2025-06-01T10:00+00:00"] ""

/-- Three coming events, of which the first has some date, in a store with two items a page. -/
def pagedMemory (date : String) : Memory :=
  { sampleMemory [sampleItem "x" "a" date, sampleItem "y" "a" "2025-05-02T10:00:00Z",
      sampleItem "z" "a" "2025-05-03T10:00:00Z"] {} with
    schema := { sampleSchema with pageSize := 2 } }

/-- After the first request somebody else gives the first event a later date. -/
def rescheduled (r : Service.Request) (n : Nat) : Service.Reply r × Nat :=
  let date := if n = 0 then "2025-05-01T10:00:00Z" else "2025-05-04T10:00:00Z"
  ((answer twiceListed r (pagedMemory date, ())).1, n + 1)

def comingQuery : Query :=
  sampleCatalogue.rangeQuery "a" (.after (formatStoredDate sampleNow))

theorem keyed_pagedMemory (date : String) :
    ((pagedMemory date).table "live").Keyed ((pagedMemory date).schema.keyName "live") :=
  keyed_sampleMemory [sampleItem "x" "a" date, sampleItem "y" "a" "2025-05-02T10:00:00Z",
    sampleItem "z" "a" "2025-05-03T10:00:00Z"] {} "live"

theorem query_first : ((pagedMemory "2025-05-01T10:00:00Z").query comingQuery none).1 =
    .ok ⟨[sampleItem "x" "a" "2025-05-01T10:00:00Z", sampleItem "y" "a" "2025-05-02T10:00:00Z"],
      some (sampleItem "y" "a" "2025-05-02T10:00:00Z")⟩ := by
  rw [Memory.query_ok rfl, Schema.matching_eq_of_perm (keyed_pagedMemory _) (.refl _)
    (by decide +kernel)]
  rfl

theorem query_second : ((pagedMemory "2025-05-04T10:00:00Z").query comingQuery
    (some (sampleItem "y" "a" "2025-05-02T10:00:00Z"))).1 =
    .ok ⟨[sampleItem "z" "a" "2025-05-03T10:00:00Z", sampleItem "x" "a" "2025-05-04T10:00:00Z"],
      none⟩ := by
  rw [Memory.query_ok rfl, Schema.matching_eq_of_perm (keyed_pagedMemory _)
    (List.perm_append_comm : ([sampleItem "y" "a" "2025-05-02T10:00:00Z",
      sampleItem "z" "a" "2025-05-03T10:00:00Z"] ++
      [sampleItem "x" "a" "2025-05-04T10:00:00Z"]).Perm _)
    (by decide +kernel)]
  rfl

/-- The first event is read on the first page, and once more on the second. -/
theorem upcoming_rescheduled : ∃ stored,
    (sampleCatalogue.upcoming 2 sampleNow "a").run.run rescheduled 0 = (.done (.ok stored), 2) ∧
      stored.map (·.id) = ["x", "y", "z", "x"] := by
  have hfirst : (Task.query comingQuery none).run.run rescheduled 0 = (.done (.ok
      ⟨[sampleItem "x" "a" "2025-05-01T10:00:00Z", sampleItem "y" "a" "2025-05-02T10:00:00Z"],
        some (sampleItem "y" "a" "2025-05-02T10:00:00Z")⟩), 1) :=
    congrArg (fun reply => (Outcome.done reply, 1)) query_first
  have hsecond : (Task.query comingQuery
      (some (sampleItem "y" "a" "2025-05-02T10:00:00Z"))).run.run rescheduled 1 = (.done (.ok
      ⟨[sampleItem "z" "a" "2025-05-03T10:00:00Z", sampleItem "x" "a" "2025-05-04T10:00:00Z"],
        none⟩), 2) :=
    congrArg (fun reply => (Outcome.done reply, 2)) query_second
  have hall : (queryAll 2 comingQuery).run.run rescheduled 0 = (.done (.ok
      [sampleItem "x" "a" "2025-05-01T10:00:00Z", sampleItem "y" "a" "2025-05-02T10:00:00Z",
        sampleItem "z" "a" "2025-05-03T10:00:00Z",
        sampleItem "x" "a" "2025-05-04T10:00:00Z"]), 2) :=
    (Task.run_bind_ok hfirst).trans (Task.run_bind_ok (Task.run_bind_ok hsecond))
  exact ⟨_, Task.run_bind_ok (Task.run_mapError _ hall), rfl⟩

/-- Two events with one id are listed, and an event is read twice when it moves to a later page. The
ids are sent as they were listed and read. -/
theorem repeated_ids_sent :
    (∃ incoming s, (Listing.eventsUntil 1 "a" (cutoff sampleNow)).run.run (answer twiceListed)
        (storedSample, ()) = (.done (.ok incoming), s) ∧
      ¬ sampleCatalogue.Sends Admissible (sampleCatalogue.upsert incoming)) ∧
    ∃ stored s, (sampleCatalogue.upcoming 2 sampleNow "a").run.run rescheduled 0 =
        (.done (.ok stored), s) ∧
      ¬ sampleCatalogue.Sends Admissible
        (sampleCatalogue.archiveEvents (missingIds stored [])) := by
  constructor
  · have hids : (((Listing.eventsUntil 1 "a" (cutoff sampleNow)).run.run (answer twiceListed)
        (storedSample, ())).1.value?.map (·.map (·.id))) = some ["x", "x"] := by decide +kernel
    obtain ⟨incoming, hlisted, hids⟩ := Option.map_eq_some_iff.mp hids
    refine ⟨incoming, _, Prod.ext (Outcome.eq_of_value? hlisted) rfl, fun h => ?_⟩
    obtain ⟨first, rest, rfl, -, hrest⟩ := List.map_eq_cons_iff.mp hids
    obtain ⟨last, tail, rfl, -, htail⟩ := List.map_eq_cons_iff.mp hrest
    obtain rfl := List.map_eq_nil_iff.mp htail
    have hchunk := (upsert_sends_iff inherited_admissible).mp h _ List.mem_cons_self
    rw [show [first, last].take maxWrites = [first, last] from rfl, hids] at hchunk
    exact absurd hchunk.2 (by decide)
  · obtain ⟨stored, hstored, hids⟩ := upcoming_rescheduled
    refine ⟨stored, _, hstored, fun h => ?_⟩
    have hmissing : missingIds stored [] = ["x", "y", "z", "x"] := by
      rw [missingIds, hids]
      rfl
    rw [hmissing] at h
    have hchunk := (archiveEvents_sends_iff inherited_admissible).mp h _ List.mem_cons_self
    exact absurd hchunk.2 (by decide)

end Sample

end Import

end GroupCalendar.Catalogue
