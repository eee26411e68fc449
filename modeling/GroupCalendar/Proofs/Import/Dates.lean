import GroupCalendar.Proofs.Event.Accepted
import GroupCalendar.Proofs.Import.Fetched
import GroupCalendar.Proofs.Import.Loss
import GroupCalendar.Proofs.Listing.Malformed

/-! # Dates of the events that an import writes

Whatever happens during imports, a live item that was not there before is that of an event of some
listing, whose date was accepted. It can be read again exactly when the year of this date in
Universal Time has four digits.
-/

namespace GroupCalendar

open DateText Store Service
open Record (bind_eq_ok)

namespace Listing

open Json

/-- All events of the page have dates that were accepted. -/
def Page.Dated (p : Page) : Prop :=
  ∀ e ∈ p.events, e.Dated

theorem dated_of_eventFields {x : Json} {e : Event}
    (h : decodeRecord "EventNode" eventFields {} x = .ok e) : e.Dated := by
  refine decodeRecord_keeps ?_ h (by simp [Event.Dated])
  intro f hf v e e' hset he
  simp only [eventFields, List.mem_cons, List.not_mem_nil, or_false] at hf
  rcases hf with rfl | rfl | rfl | rfl | rfl | rfl | rfl | rfl | rfl | rfl
  all_goals
    obtain ⟨y, hy, hset⟩ := bind_eq_ok hset
    cases hset
  case inr.inr.inr.inr.inl =>
    intro t ht
    obtain ⟨s, -, hs⟩ := Option.bind_eq_some_iff.mp ht
    exact ⟨s, .inl hs⟩
  all_goals exact he

theorem dated_of_edgeFields {x : Json} {e : Event}
    (h : decodeRecord "EventEdge" edgeFields {} x = .ok e) : e.Dated := by
  refine decodeRecord_keeps ?_ h (by simp [Event.Dated])
  intro f hf v e e' hset _
  rw [List.mem_singleton.mp hf] at hset
  exact dated_of_eventFields hset

theorem dated_of_edges {xs : List Json} {events : List Event}
    (h : List.Forall₂ (fun x e => decodeRecord "EventEdge" edgeFields {} x = .ok e) xs events) :
    ∀ e ∈ events, e.Dated := by
  induction h with
  | nil => exact List.forall_mem_nil _
  | cons he _ ih => exact List.forall_mem_cons.mpr ⟨dated_of_edgeFields he, ih⟩

theorem Page.dated_of_pageInfoFields {x : Json} {p p' : Page}
    (h : decodeRecord "PageInfo" pageInfoFields p x = .ok p') (hp : p.Dated) : p'.Dated := by
  refine decodeRecord_keeps ?_ h hp
  intro f hf v p p' hset hp
  simp only [pageInfoFields, List.mem_cons, List.not_mem_nil, or_false] at hf
  rcases hf with rfl | rfl
  all_goals
    obtain ⟨y, -, hset⟩ := bind_eq_ok hset
    cases hset
    exact hp

theorem Page.dated_of_pageFields {x : Json} {p p' : Page}
    (h : decodeRecord "UnifiedEvents" pageFields p x = .ok p') (hp : p.Dated) : p'.Dated := by
  refine decodeRecord_keeps ?_ h hp
  intro f hf v p p' hset hp
  simp only [pageFields, List.mem_cons, List.not_mem_nil, or_false] at hf
  rcases hf with rfl | rfl
  · exact Page.dated_of_pageInfoFields hset hp
  · obtain ⟨events, hevents, hset⟩ := bind_eq_ok hset
    cases hset
    cases v with
    | array elements => exact dated_of_edges (Record.forall₂_of_mapM hevents)
    | _ => cases hevents

theorem Page.dated_of_dataFields {x : Json} {d : Option Page}
    (h : decodeRecord "FutureEventsData" dataFields none x = .ok d) : ∀ p ∈ d, p.Dated := by
  refine decodeRecord_keeps (p := fun d : Option Page => ∀ p ∈ d, p.Dated) ?_ h nofun
  rintro f hf v d (_ | p) hset - q ⟨⟩
  rw [List.mem_singleton.mp hf] at hset
  have hrecord : decodeOption (decodeRecord "GroupEvents" groupEventsFields {}) v =
      .ok (some p) := hset
  refine decodeRecord_keeps (p := Page.Dated) ?_ (decodeOption_eq_ok hrecord)
    (List.forall_mem_nil _)
  intro f hf v p p' hset hp
  rw [List.mem_singleton.mp hf] at hset
  exact Page.dated_of_pageFields hset hp

/-- The dates of the events of a page were accepted. -/
theorem Page.dated_of_ofAnswer {group : String} {x : Json} {p : Page}
    (h : Page.ofAnswer group x = .ok p) : p.Dated := by
  rw [Page.ofAnswer] at h
  split at h
  · cases h
  · next page errors ha =>
    cases h
    refine decodeRecord_keeps (p := fun a : Answer => ∀ d ∈ a.data, ∀ p ∈ d, p.Dated) ?_ ha nofun
      (some p) rfl p rfl
    intro f hf v a a' hset hold
    simp only [answerFields, List.mem_cons, List.not_mem_nil, or_false] at hf
    rcases hf with rfl | rfl
    · obtain ⟨d, hd, hset⟩ := bind_eq_ok hset
      cases hset
      rintro d ⟨⟩
      exact Page.dated_of_dataFields (decodeOption_eq_ok hd)
    · obtain ⟨errors, -, hset⟩ := bind_eq_ok hset
      cases hset
      exact hold
  all_goals cases h

end Listing

namespace Import

variable {ω : Type} {source : Source ω} {c : Catalogue} {pages : Nat} {r r₀ r' : Run (Memory × ω)}
  {ls : Nat → Ledger}

theorem dated_of_mem_listedIn {group : String} {x : Json} {e : Event}
    (h : e ∈ Ledger.listedIn group x) : e.Dated := by
  rw [Ledger.listedIn] at h
  split at h
  · next p hp => exact Listing.Page.dated_of_ofAnswer hp e h
  · cases h

/-- What has been listed has been so before, or stands in the answer to a request. -/
theorem dated_record {group : String} {l : Ledger} (hl : ∀ e ∈ l.listed, e.Dated)
    (q : Service.Request) (reply : Service.Reply q) :
    ∀ e ∈ (l.record c group q reply).listed, e.Dated := by
  intro e he
  unfold Ledger.record at he
  split at he
  · exact hl e he
  · exact hl e he
  · rcases List.mem_append.mp he with h | h
    · exact hl e h
    · exact dated_of_mem_listedIn h
  · exact hl e he

/-- The live items are those of before, or those of events whose dates were accepted. -/
def Fresh (c : Catalogue) (m₀ m : Memory) : Prop :=
  ∀ id item, m.get? c.live id = some item →
    m₀.get? c.live id = some item ∨ ∃ e : Event, e.Dated ∧ item = e.toItem

theorem Fresh.of_get? {m₀ m m' : Memory} (h : Fresh c m₀ m)
    (hm : ∀ id, m'.get? c.live id = m.get? c.live id) : Fresh c m₀ m' := by
  intro id item hi
  rw [hm] at hi
  exact h id item hi

theorem Fresh.of_wrote {m₀ m m' : Memory} {l : Ledger} {table : String} {ws : List Write}
    (h : Fresh c m₀ m) (hc : c.Fits m.schema) (hw : m.Wrote table ws m')
    (hp : ∀ w ∈ ws, l.Permits c table w) (hl : ∀ e ∈ l.listed, e.Dated) : Fresh c m₀ m' := by
  intro id item hi
  rcases hw.get?_cases c.live id with ⟨hg, -⟩ | ⟨ht, item', hmem, -, hg⟩ | ⟨-, -, -, -, hg⟩
  · exact h id item (hg ▸ hi)
  · cases hg.symm.trans hi
    cases hp _ hmem with
    | save he => exact .inr ⟨_, hl _ he, rfl⟩
    | keep => exact absurd ht.symm hc.distinct
  · cases hg.symm.trans hi

/-- What an import keeps: ledgers that list accepted dates only, and fresh live items. -/
structure Dated (c : Catalogue) (m₀ : Memory) (r : Run (Memory × ω)) (ls : Nat → Ledger) :
    Prop where
  accords : Accords c r ls
  listed : ∀ i, ∀ e ∈ (ls i).listed, e.Dated
  fresh : Fresh c m₀ r.state.1

theorem Dated.of_same {m₀ : Memory} (h : Dated c m₀ r ls) (ha : Accords c r' ls)
    (hm : r.state.1.Same r'.state.1) : Dated c m₀ r' ls where
  accords := ha
  listed := h.listed
  fresh := h.fresh.of_get? fun id => hm.get?_eq c.live id

theorem Dated.step {m₀ : Memory} (h : Dated c m₀ r ls) (i : Nat) :
    Dated c m₀ (r.step (answer source) i) (r.record c (answer source) i ls) := by
  have haccords : Accords c (r.step (answer source) i) (r.record c (answer source) i ls) :=
    h.accords.step i
  rcases r.step_cases c (answer source) i ls with
    ⟨hr, hl⟩ | ⟨w, phase, -, -, -, hs, hl⟩ | ⟨group, q, next, hw, -, hs, hl⟩
  · rwa [hr, hl]
  · rw [hl] at haccords ⊢
    refine h.of_same haccords ?_
    rw [hs]
    exact .refl _
  · refine ⟨haccords, ?_, ?_⟩
    · rw [hl]
      exact forall_update (fun l => ∀ e ∈ l.listed, e.Dated)
        (dated_record (h.listed i) q _) h.listed
    · rw [hs]
      have hi := h.accords.workers i
      rw [hw] at hi
      by_cases hq : ∃ table ws, q = .store (.batchWrite table ws)
      · obtain ⟨table, ws, rfl⟩ := hq
        obtain ⟨done, hd, hm, -⟩ := r.state.1.batchWrite_wrote table ws
        exact h.fresh.of_wrote h.accords.fits hm (fun w hw => hi.1 w (hd.subset hw)) (h.listed i)
      · have hm : r.state.1.Same (answer source q r.state).2.1 :=
          answer_same (fun table ws e => hq ⟨table, ws, e⟩) r.state.2
        exact h.fresh.of_get? fun id => hm.get?_eq c.live id

theorem Dated.moves {m₀ : Memory} (h : Dated c m₀ r ls) (hm : Moves source c pages r r') :
    ∃ ls', Dated c m₀ r' ls' := by
  cases hm with
  | step i => exact ⟨_, h.step i⟩
  | panic hw => exact ⟨ls, h.of_same (h.accords.panics hw) (.refl _)⟩
  | faults f =>
    have hs : r.state.1.Same { r.state.1 with faults := f } := ⟨rfl, fun _ => rfl⟩
    exact ⟨ls, h.of_same (h.accords.same hs rfl) hs⟩
  | source w => exact ⟨ls, h.of_same (h.accords.same (.refl _) rfl) (.refl _)⟩
  | restart hr hs =>
    refine ⟨fun _ => {}, accords_ready hr ?_ ?_, ?_, ?_⟩
    · rw [hs]
      exact h.accords.fits
    · rw [hs]
      exact h.accords.keyed
    · exact fun _ => List.forall_mem_nil _
    · rw [hs]
      exact h.fresh

theorem dated_of_moves {r₀ : Run (Memory × ω)} (hr : Ready c pages r₀.workers)
    (hc : c.Fits r₀.state.1.schema) (hk : r₀.state.1.Keyed)
    (h : Relation.ReflTransGen (Moves source c pages) r₀ r) :
    ∃ ls, Dated c r₀.state.1 r ls := by
  induction h with
  | refl =>
    exact ⟨fun _ => {}, accords_ready hr hc hk, fun _ => List.forall_mem_nil _,
      fun _ _ => .inl⟩
  | tail _ hm ih =>
    obtain ⟨ls, h⟩ := ih
    exact h.moves hm

/-- An accepted date is read back from the store exactly when its year has four digits, and so are
the items that imports write, whatever happens meanwhile. -/
theorem accepted_dates_read_back {r₀ : Run (Memory × ω)} (hr : Ready c pages r₀.workers)
    (hc : c.Fits r₀.state.1.schema) (hk : r₀.state.1.Keyed)
    (h : Relation.ReflTransGen (Moves source c pages) r₀ r) :
    (∀ s t, Accepts s t → ReadsBack s t) ∧
      ∀ id item, r.state.1.get? c.live id = some item →
        r₀.state.1.get? c.live id = some item ∨
        ∃ e : Event, e.Dated ∧ item = e.toItem ∧ Event.ofItem item =
          if e.Storable then .ok e.stored else .error (.invalid DateError.invalid.message) := by
  obtain ⟨ls, hdated⟩ := dated_of_moves hr hc hk h
  refine ⟨fun s t => Accepts.readsBack, ?_⟩
  intro id item hi
  rcases hdated.fresh id item hi with hold | ⟨e, he, rfl⟩
  · exact .inl hold
  · exact .inr ⟨e, he, rfl, e.ofItem_toItem_eq⟩

section Sample

/-- The last minute of the last year of four digits, an hour behind Universal Time. -/
def lateText : String := "9999-12-31T23:59-01:00"

def lateDate : Instant :=
  sampleInstant 253402304340

def lateStart : Run (Memory × Unit) :=
  .start (fun g => (importGroup sampleCatalogue 2 sampleNow (cutoff sampleNow) g).run) ["a"]
    (sampleMemory [] {}, ())

/-- The listing holds one event of that minute. -/
def lateSite : Source Unit :=
  sampleSite fun _ _ => sampleAnswer [sampleEdge "x" "a" lateText] ""

def lateEnd : Run (Memory × Unit) :=
  lateStart.steps (answer lateSite) (List.replicate 5 0)

theorem accepted_dates_read_back_late :
    ReadsBack lateText lateDate ∧ ∃ e : Event, e.Dated ∧
      lateEnd.state.1.get? sampleCatalogue.live "x" = some e.toItem ∧ Event.ofItem e.toItem =
        if e.Storable then .ok e.stored else .error (.invalid DateError.invalid.message) := by
  have hc : sampleCatalogue.Fits lateStart.state.1.schema := ⟨rfl, rfl, by decide⟩
  have hready : Ready sampleCatalogue 2 lateStart.workers := ready_start sampleCatalogue 2 _ _ _ _
  have hreach : Relation.ReflTransGen (Moves lateSite sampleCatalogue 2) lateStart lateEnd :=
    moves_steps lateStart _
  obtain ⟨hdates, hitems⟩ :=
    accepted_dates_read_back hready hc (keyed_sampleMemory _ _) hreach
  refine ⟨hdates lateText lateDate (.inl (by decide +kernel)), ?_⟩
  obtain ⟨item, hitem⟩ : ∃ item, lateEnd.state.1.get? sampleCatalogue.live "x" = some item :=
    Option.isSome_iff_exists.mp (by decide +kernel)
  rcases hitems "x" item hitem with hold | ⟨e, he, rfl, hread⟩
  · cases hold
  · exact ⟨e, he, hitem, hread⟩

/-- The import succeeds, and the item that it has written cannot be read. -/
theorem late_event_unreadable :
    Accepts lateText lateDate ∧ lateEnd.allSucceeded = true ∧
      (lateEnd.state.1.get? sampleCatalogue.live "x").map (fun item =>
        (item.text? Catalogue.dateName, (Event.ofItem item).mapError ItemError.message)) =
          some (some "+10000-01-01T00:59:00Z", .error DateError.invalid.message) := by
  refine ⟨.inl ?_, ?_, ?_⟩
  all_goals decide +kernel

end Sample

end Import

end GroupCalendar
