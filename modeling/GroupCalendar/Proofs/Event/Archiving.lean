import GroupCalendar.Proofs.Import.Effect
import GroupCalendar.Proofs.Store.Parts

/-! # Archiving that fails halfway

Whatever faults come up while ids are archived, an id leaves the live table only when its item is in
the archive, and nothing changes under an id that was not asked for. If the archiving succeeds, all
ids have moved, and archiving them once more has no effect.
-/

namespace GroupCalendar.Catalogue

open Store Service

variable {c : Catalogue} {m m' m'' : Memory} {ids ids' : List String}

/-- Under some ids items have been copied to the archive, and copied ones have been deleted.
Everything else is as before. -/
structure PartlyMoved (c : Catalogue) (ids : List String) (m m' : Memory) : Prop where
  schema_eq : m'.schema = m.schema
  live_cases : ∀ id, m'.get? c.live id = m.get? c.live id ∨
    id ∈ ids ∧ m'.get? c.live id = none ∧ m'.get? c.archive id = m.get? c.live id
  archive_cases : ∀ id, m'.get? c.archive id = m.get? c.archive id ∨
    id ∈ ids ∧ (m.get? c.live id).isSome ∧ m'.get? c.archive id = m.get? c.live id
  other_eq : ∀ other, other ≠ c.live → other ≠ c.archive → m'.table other = m.table other

namespace PartlyMoved

theorem of_same (h : m.Same m') : c.PartlyMoved ids m m' where
  schema_eq := h.schema_eq
  live_cases id := .inl (h.get?_eq c.live id)
  archive_cases id := .inl (h.get?_eq c.archive id)
  other_eq other _ _ := h.table_eq other

theorem mono (h : c.PartlyMoved ids m m') (hids : ids ⊆ ids') : c.PartlyMoved ids' m m' where
  schema_eq := h.schema_eq
  live_cases id := (h.live_cases id).imp_right fun hmoved => ⟨hids hmoved.1, hmoved.2⟩
  archive_cases id := (h.archive_cases id).imp_right fun hcopied => ⟨hids hcopied.1, hcopied.2⟩
  other_eq := h.other_eq

/-- What has left the live table is not copied over a second time. -/
theorem trans (h : c.PartlyMoved ids m m') (h' : c.PartlyMoved ids m' m'') :
    c.PartlyMoved ids m m'' where
  schema_eq := h'.schema_eq.trans h.schema_eq
  live_cases id := by
    obtain hlive | ⟨hid, hnone, hcopy⟩ := h.live_cases id
    · rw [← hlive]
      exact h'.live_cases id
    · right
      refine ⟨hid, ?_, ?_⟩
      · obtain hlive' | ⟨-, hnone', -⟩ := h'.live_cases id
        · exact hlive'.trans hnone
        · exact hnone'
      · obtain harchive | ⟨-, hsome, -⟩ := h'.archive_cases id
        · exact harchive.trans hcopy
        · rw [hnone] at hsome
          cases hsome
  archive_cases id := by
    obtain harchive' | ⟨hid, hsome, hcopy⟩ := h'.archive_cases id
    · rw [harchive']
      exact h.archive_cases id
    · right
      obtain hlive | ⟨-, hnone, -⟩ := h.live_cases id
      · rw [hlive] at hsome hcopy
        exact ⟨hid, hsome, hcopy⟩
      · rw [hnone] at hsome
        cases hsome
  other_eq other hl ha := (h'.other_eq other hl ha).trans (h.other_eq other hl ha)

/-- Nothing has happened if none of the ids was live. -/
theorem same (h : c.PartlyMoved ids m m') (hids : ∀ id ∈ ids, m.get? c.live id = none) :
    m.Same m' := by
  refine ⟨h.schema_eq, fun name => ?_⟩
  by_cases hl : name = c.live
  · subst hl
    refine Table.ext fun id => ?_
    obtain hlive | ⟨hid, hnone, -⟩ := h.live_cases id
    · exact hlive
    · exact hnone.trans (hids id hid).symm
  by_cases ha : name = c.archive
  · subst ha
    refine Table.ext fun id => ?_
    obtain harchive | ⟨hid, hsome, -⟩ := h.archive_cases id
    · exact harchive
    · rw [hids id hid] at hsome
      cases hsome
  · exact h.other_eq name hl ha

end PartlyMoved

section Writes

theorem mem_rowsAt {t : Table} {id : String} {item : Item} (h : (id, item) ∈ t.rowsAt ids) :
    id ∈ ids ∧ t.get? id = some item := by
  obtain ⟨key, hkey, hrow⟩ := List.mem_filterMap.mp h
  obtain ⟨found, hfound, he⟩ := Option.map_eq_some_iff.mp hrow
  obtain ⟨rfl, rfl⟩ := Prod.mk.inj he
  exact ⟨hkey, hfound⟩

/-- Some of the items found have been put into the archive, and some of these have been deleted. -/
theorem PartlyMoved.of_wrote (hc : c.Fits m.schema) (hk : (m.table c.live).Keyed idName)
    {front : Fields Item} {keys : List String} (hfront : front ⊆ (m.table c.live).rowsAt ids)
    (hkeys : keys ⊆ front.names) (hput : m.Wrote c.archive (front.map fun row => .put row.2) m')
    (hdelete : m'.Wrote c.live (keys.map fun id => .delete (Item.key idName id)) m'') :
    c.PartlyMoved ids m m'' := by
  have hlive : m''.table c.live = (m.table c.live).eraseAll keys := by
    rw [hdelete.table_eq, hput.other_eq _ hc.distinct, hput.schema_eq, hc.live_key,
      Table.apply_deletes]
  have harchive : m''.table c.archive = (m.table c.archive).putAll front := by
    rw [hdelete.other_eq _ hc.distinct.symm, hput.table_eq, hc.archive_key,
      Table.apply_puts _ fun row hrow => text?_of_mem_rowsAt hk (hfront hrow)]
  have hcopied : ∀ id ∈ front.names,
      id ∈ ids ∧ (m.get? c.live id).isSome ∧ m''.get? c.archive id = m.get? c.live id := by
    intro id hid
    obtain ⟨item, hmem, hitem⟩ := Fields.get?_overlay_of_mem (m.table c.archive).rows hid
    obtain ⟨hids, hfound⟩ := mem_rowsAt (hfront hmem)
    have harchived : m''.get? c.archive id = some item := by
      rw [Memory.get?, harchive]
      exact hitem
    exact ⟨hids, Option.isSome_of_eq_some hfound, harchived.trans hfound.symm⟩
  refine ⟨hdelete.schema_eq.trans hput.schema_eq, fun id => ?_, fun id => ?_, fun other hl ha => ?_⟩
  · rw [Memory.get?, hlive, Table.get?_eraseAll]
    by_cases hid : id ∈ keys
    · obtain ⟨hids, -, hcopy⟩ := hcopied id (hkeys hid)
      exact .inr ⟨hids, if_pos hid, hcopy⟩
    · exact .inl (if_neg hid)
  · by_cases hid : id ∈ front.names
    · exact .inr (hcopied id hid)
    · left
      rw [Memory.get?, harchive]
      exact Fields.get?_overlay_of_notMem hid
  · rw [hdelete.other_eq other hl, hput.other_eq other ha]

end Writes

section Runs

variable {σ : Type} {handle : (r : Service.Request) → σ → Service.Reply r × σ} {view : σ → Memory}

/-- A chunk moves as a whole if it succeeds. -/
theorem archiveChunk_returns (h : SoleWriter handle view) {s : σ} (hc : c.Fits (view s).schema)
    (hk : ((view s).table c.live).Keyed idName) (ids : List String) :
    (c.archiveChunk ids).Returns handle s fun x s' =>
      c.PartlyMoved ids (view s) (view s') ∧ (x = .ok () → c.Moved ids (view s) (view s')) := by
  refine (getAll_returns h c.live _ s).bind (fun items s₁ hgot => ?_)
    fun e s₁ hgot => ⟨.of_same hgot.1, nofun⟩
  obtain ⟨hsame, hitems⟩ := hgot
  rw [hitems items rfl, filterMap_found hc]
  split
  · next he =>
    have hnil : ((view s).table c.live).rowsAt ids = [] :=
      List.map_eq_nil_iff.mp (List.isEmpty_iff.mp he)
    exact Task.returns_pure ⟨.of_same hsame, fun _ => .of_none hc hk hnil hsame⟩
  · rw [map_put_rowsAt, map_delete_rowsAt hk]
    refine (writePending_returns h c.archive maxAttempts _ s₁).bind (fun _ s₂ hput => ?_)
      fun e s₂ hput => ⟨?_, nofun⟩
    · have hput := hsame.trans_wrote hput.wrote
      obtain ⟨x, s₃, hrun, done, rest, hsplit, hdelete, hiff⟩ :=
        writePending_returns h c.live maxAttempts
          ((((view s).table c.live).rowsAt ids).names.map fun id => .delete (Item.key idName id)) s₂
      obtain ⟨front, back, hnames, rfl, rfl⟩ := List.map_eq_append_iff.mp hsplit
      refine ⟨x, s₃, hrun, ?_, fun hx => ?_⟩
      · exact .of_wrote hc hk (List.Subset.refl _) (hnames ▸ List.subset_append_left _ _) hput
          hdelete
      · have hback := List.map_eq_nil_iff.mp (hiff.mpr hx)
        rw [hback, List.append_nil] at hnames
        rw [← hnames] at hdelete
        exact .of_wrote hc hk hput hdelete
    · obtain ⟨done, rest, hsplit, hput, -⟩ := hput
      obtain ⟨front, back, hrows, rfl, rfl⟩ := List.map_eq_append_iff.mp hsplit
      have hdelete : (view s₂).Wrote c.live
          (([] : List String).map fun id => .delete (Item.key idName id)) (view s₂) :=
        (Memory.Same.refl _).wrote c.live
      exact .of_wrote hc hk (hrows ▸ List.subset_append_left _ _) (List.nil_subset _)
        (hsame.trans_wrote hput) hdelete

theorem archiveChunks_returns (h : SoleWriter handle view) (chunks : List (List String)) {s : σ}
    (hc : c.Fits (view s).schema) (hk : ((view s).table c.live).Keyed idName) :
    (chunks.forM fun chunk => Task.mapError CatalogueError.ofStore (c.archiveChunk chunk)).Returns
      handle s fun x s' => c.PartlyMoved chunks.flatten (view s) (view s') ∧
        (x = .ok () → c.Moved chunks.flatten (view s) (view s')) := by
  induction chunks generalizing s with
  | nil => exact Task.returns_pure ⟨.of_same (.refl _), fun _ => .refl c _⟩
  | cons chunk chunks ih =>
    rw [List.flatten_cons]
    have hfirst : chunk ⊆ chunk ++ chunks.flatten := List.subset_append_left _ _
    have hchunk : (Task.mapError CatalogueError.ofStore (c.archiveChunk chunk)).Returns handle s
        fun x s' => c.PartlyMoved chunk (view s) (view s') ∧
          (x = .ok () → c.Moved chunk (view s) (view s')) := by
      refine Task.Returns.mapError ?_
      obtain ⟨x, s', hrun, hpart, hmoved⟩ := archiveChunk_returns h hc hk chunk
      exact ⟨x, s', hrun, hpart, fun hx => hmoved (Record.mapError_eq_ok_iff.mp hx)⟩
    refine hchunk.bind (fun _ s₁ hpart => ?_) fun e s₁ hpart => ⟨hpart.1.mono hfirst, nofun⟩
    have hmoved := hpart.2 rfl
    obtain ⟨x, s₂, hrun, hrest, hmoved'⟩ := ih (hmoved.schema_eq ▸ hc) (hmoved.keyed hk)
    exact ⟨x, s₂, hrun, (hpart.1.mono hfirst).trans (hrest.mono (List.subset_append_right _ _)),
      fun hx => hmoved.trans (hmoved' hx)⟩

theorem archiveEvents_returns (h : SoleWriter handle view) {s : σ} (hc : c.Fits (view s).schema)
    (hk : ((view s).table c.live).Keyed idName) (ids : List String) :
    (c.archiveEvents ids).Returns handle s fun x s' =>
      c.PartlyMoved ids (view s) (view s') ∧ (x = .ok () → c.Moved ids (view s) (view s')) := by
  have hall := archiveChunks_returns h (chunks maxWrites ids) hc hk
  rwa [flatten_chunks ids (by decide)] at hall

/-- With no other writer archiving always ends. If it succeeds, the live table has lost the ids and
the archive is overlaid by the items that it lost, and no further attempt with the same ids changes
anything, in whatever way it ends. If it fails, what has left the live table was asked for and is in
the archive as it was, and nothing else has changed. -/
theorem archive_moves (h : SoleWriter handle view) {s : σ} (hc : c.Fits (view s).schema)
    (hk : ((view s).table c.live).Keyed idName) (ids : List String) :
    ∃ x s', (c.archiveEvents ids).run.run handle s = (.done x, s') ∧
      (x = .ok () → c.Moved ids (view s) (view s') ∧
        ∀ s₁, (view s').Same (view s₁) → ∃ y s₂,
          (c.archiveEvents ids).run.run handle s₁ = (.done y, s₂) ∧ (view s₁).Same (view s₂)) ∧
      ∀ e, x = .error e → c.PartlyMoved ids (view s) (view s') := by
  obtain ⟨x, s', hrun, hpart, hmoved⟩ := archiveEvents_returns h hc hk ids
  refine ⟨x, s', hrun, fun hx => ⟨hmoved hx, fun s₁ hsame => ?_⟩, fun _ _ => hpart⟩
  have hmoved := hmoved hx
  have hc₁ : c.Fits (view s₁).schema := hsame.schema_eq ▸ hmoved.schema_eq ▸ hc
  have hk₁ : ((view s₁).table c.live).Keyed idName := hsame.table_eq c.live ▸ hmoved.keyed hk
  obtain ⟨y, s₂, hrun', hpart', -⟩ := archiveEvents_returns h hc₁ hk₁ ids
  refine ⟨y, s₂, hrun', hpart'.same fun id hid => ?_⟩
  rw [Memory.get?, hsame.table_eq, hmoved.live_eq, Table.get?_eraseAll, if_pos hid]

end Runs

section Sample

open Import

/-- A repeated id in front of one that is not live, and a last one in a chunk of its own. -/
def repeatedIds : List String :=
  List.replicate 24 "x" ++ ["unknown", "y"]

/-- Two live events, of which the first deletions stay unprocessed. -/
def liveStart : Memory :=
  sampleMemory [sampleItem "x" "a" "2025-05-01T10:00:00Z",
      sampleItem "y" "a" "2025-06-01T10:00:00Z"]
    { unprocessedWrites := [0, 23] }

/-- The archive is out of order when the second chunk is put into it. -/
def archiveOutage (n : Nat) (f : Faults) : Faults :=
  if n = 6 then { f with writeErrors := [("archive", .write "out of order")] } else f

theorem archive_moves_outage :
    (∃ s', (sampleCatalogue.archiveEvents repeatedIds).run.run (answer listedSample)
        (liveStart, ()) = (.done (.ok ()), s') ∧
      sampleCatalogue.Moved repeatedIds liveStart s'.1 ∧
      ∃ y s₂, (sampleCatalogue.archiveEvents repeatedIds).run.run (answer listedSample) s' =
        (.done y, s₂) ∧ s'.1.Same s₂.1) ∧
    ∃ e s', (sampleCatalogue.archiveEvents repeatedIds).run.run
        (disturbed archiveOutage listedSample) ((liveStart, ()), 0) = (.done (.error e), s') ∧
      sampleCatalogue.PartlyMoved repeatedIds liveStart s'.1.1 ∧
      sampleCatalogue.Deleted liveStart s'.1.1 "x" ∧
      ¬ sampleCatalogue.Deleted liveStart s'.1.1 "y" := by
  have hc : sampleCatalogue.Fits liveStart.schema := ⟨rfl, rfl, by decide⟩
  have hk : (liveStart.table sampleCatalogue.live).Keyed idName :=
    hc.live_keyed (keyed_sampleMemory _ _)
  constructor
  · obtain ⟨x, s', hrun, hok, -⟩ :=
      archive_moves (soleWriter_answer listedSample) (s := (liveStart, ())) hc hk repeatedIds
    have hdone : ((sampleCatalogue.archiveEvents repeatedIds).run.run (answer listedSample)
        (liveStart, ())).1.value?.isSome = true := by decide +kernel
    rw [hrun] at hdone
    cases x with
    | error e => cases hdone
    | ok _ =>
      obtain ⟨hmoved, hagain⟩ := hok rfl
      exact ⟨s', hrun, hmoved, hagain s' (.refl _)⟩
  · obtain ⟨x, s', hrun, -, hbad⟩ :=
      archive_moves (soleWriter_disturbed archiveOutage listedSample) (s := ((liveStart, ()), 0))
        hc hk repeatedIds
    have hfailed : ((sampleCatalogue.archiveEvents repeatedIds).run.run
        (disturbed archiveOutage listedSample) ((liveStart, ()), 0)).1.value?.isNone = true := by
      decide +kernel
    have hx : ((sampleCatalogue.archiveEvents repeatedIds).run.run
        (disturbed archiveOutage listedSample) ((liveStart, ()), 0)).2.1.1.get?
          sampleCatalogue.live "x" = none := Option.isNone_iff_eq_none.mp (by decide +kernel)
    have hy : (((sampleCatalogue.archiveEvents repeatedIds).run.run
        (disturbed archiveOutage listedSample) ((liveStart, ()), 0)).2.1.1.get?
          sampleCatalogue.live "y").isSome := by decide +kernel
    rw [hrun] at hfailed hx hy
    cases x with
    | ok _ => cases hfailed
    | error e =>
      refine ⟨e, s', hrun, hbad e rfl, ⟨by decide +kernel, hx⟩, fun hdeleted => ?_⟩
      rw [hdeleted.2] at hy
      cases hy

end Sample

end GroupCalendar.Catalogue
