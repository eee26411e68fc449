import GroupCalendar.Proofs.Event.Effects
import GroupCalendar.Proofs.Event.RoundTrip

/-! # Tables written by upserts

A live table that only upserts have written holds under each id the item of an event with the id,
also where an upsert has failed halfway. If the events have dates in whole seconds and in years of
four digits, each item is read as its event.
-/

namespace GroupCalendar

open Store Service

section Keeping

variable {ω : Type} {source : Source ω} {inv : Memory → Prop}

/-- The contract of a session in which no request leads out of an invariant. -/
def Service.keeping (source : Source ω) (inv : Memory → Prop) :
    Contract signature (Memory × ω) where
  allows r s := inv (answer source r s).2.1
  replies r s reply s' := answer source r s = (reply, s')

/-- The invariant holds wherever the program ends, also if it breaks off. -/
theorem Program.Meets.run_keeping {α : Type} {p : Program signature α}
    {post : α → Memory × ω → Prop} {s : Memory × ω} (h : p.Meets (keeping source inv) s post)
    (hs : inv s.1) : inv (p.run (answer source) s).2.1 := by
  induction p generalizing s with
  | done | broken | exhausted => exact hs
  | ask r next ih => exact ih _ (h.2 _ _ rfl) h.1

theorem pause_keeping (attempt : Nat) {s : Memory × ω} (hs : inv s.1) :
    (pause attempt).Ensures (keeping source inv) s fun _ s' => inv s'.1 := by
  unfold pause
  split
  · exact Task.ensures_pure hs
  · refine Task.ensures_wait hs ?_
    rintro s' ⟨⟩
    exact hs

variable {table : String} {allowed : Write → Prop}

/-- Attempts at writing keep what writes of the allowed kind keep. -/
theorem writePending_keeping
    (hstep : ∀ m ws, inv m → (∀ w ∈ ws, allowed w) → inv (m.batchWrite table ws).2)
    (left : Nat) {ws : List Write} (hws : ∀ w ∈ ws, allowed w) {s : Memory × ω} (hs : inv s.1) :
    (writePending table left ws).Ensures (keeping source inv) s fun _ s' => inv s'.1 := by
  induction left generalizing ws s with
  | zero =>
    unfold writePending
    split
    · exact Task.ensures_pure hs
    · exact Task.ensures_throw _ _ _
  | succ left ih =>
    unfold writePending
    split
    · exact Task.ensures_pure hs
    · refine (pause_keeping _ hs).bind fun _ s₁ hs₁ => ?_
      have hwrite := hstep s₁.1 ws hs₁ hws
      obtain ⟨done, -, -, hlater⟩ := s₁.1.batchWrite_wrote table ws
      refine (Task.ensures_batchWrite (fun later s₂ => (∀ w ∈ later, allowed w) ∧ inv s₂.1)
        hwrite ?_).bind fun later s₂ h => ih h.1 h.2
      rintro later s₂ hr
      obtain ⟨hok, rfl⟩ := Prod.mk.inj hr
      refine ⟨fun w hw => hws w ?_, hwrite⟩
      rw [hlater later hok]
      exact List.mem_append_right _ hw

end Keeping

namespace Event

/-- A date of the event is a whole second in a year of four digits. -/
def Precise (e : Event) : Prop :=
  ∀ t ∈ e.dateTime, t.InFourDigits ∧ t.wholeSecond = t

instance (e : Event) : Decidable e.Precise :=
  inferInstanceAs (Decidable (∀ t ∈ e.dateTime, t.InFourDigits ∧ t.wholeSecond = t))

variable {e : Event}

theorem Precise.stored_eq (h : e.Precise) : e.stored = e := by
  rw [stored, Option.map_congr fun t ht => (h t ht).2, Option.map_id']

/-- Nothing of the event is lost in its item. -/
theorem Precise.ofItem_toItem (h : e.Precise) : ofItem e.toItem = .ok e := by
  rw [Event.ofItem_toItem fun t ht => (h t ht).1, h.stored_eq]

theorem Precise.toItem_inj {e' : Event} (h : e.Precise) (h' : e'.Precise)
    (heq : e.toItem = e'.toItem) : e = e' :=
  Except.ok.inj (h.ofItem_toItem.symm.trans (heq ▸ h'.ofItem_toItem))

end Event

namespace Catalogue

variable {c : Catalogue} {m m' : Memory}

/-- Stores whose live table was empty once and has been written by upserts alone since, of events
with dates in whole seconds. -/
inductive Upserted (c : Catalogue) : Memory → Prop
  | empty {m : Memory} (hkey : m.schema.keyName c.live = idName) (h : m.table c.live = .empty) :
    Upserted c m
  | upsert {ω : Type} {m : Memory} {events : List Event} (h : Upserted c m)
      (he : ∀ e ∈ events, e.Precise) (source : Source ω) (w : ω) :
    Upserted c ((c.upsert events).run.run (answer source) (m, w)).2.1
  | same {m m' : Memory} (h : Upserted c m) (hs : m.Same m') : Upserted c m'

/-- The live table holds the items of events under their ids. -/
structure Filed (c : Catalogue) (m : Memory) : Prop where
  live_key : m.schema.keyName c.live = idName
  exists_event : ∀ id item, m.get? c.live id = some item →
    ∃ e : Event, e.Precise ∧ e.id = id ∧ item = e.toItem

theorem Filed.of_same (h : c.Filed m) (hs : m.Same m') : c.Filed m' where
  live_key := hs.schema_eq ▸ h.live_key
  exists_event id item hi := h.exists_event id item (hs.get?_eq c.live id ▸ hi)

/-- What is put live are items of events. -/
theorem Filed.batchWrite (h : c.Filed m) {ws : List Write}
    (hws : ∀ w ∈ ws, ∃ e : Event, e.Precise ∧ w = .put e.toItem) :
    c.Filed (m.batchWrite c.live ws).2 := by
  obtain ⟨done, hdone, hwrote, -⟩ := m.batchWrite_wrote c.live ws
  refine ⟨hwrote.schema_eq ▸ h.live_key, fun id item hi => ?_⟩
  obtain ⟨hsame, -⟩ | ⟨-, put, hput, hkey, hget⟩ | ⟨-, -, -, -, hnone⟩ :=
    hwrote.get?_cases c.live id
  · exact h.exists_event id item (hsame ▸ hi)
  · obtain rfl := Option.some.inj (hget.symm.trans hi)
    obtain ⟨e, he, hw⟩ := hws _ (hdone.subset hput)
    cases hw
    rw [h.live_key, e.text?_toItem] at hkey
    exact ⟨e, he, Option.some.inj hkey, rfl⟩
  · exact absurd (hnone.symm.trans hi) (by simp)

theorem Filed.upsert {ω : Type} (h : c.Filed m) {events : List Event}
    (he : ∀ e ∈ events, e.Precise) (source : Source ω) (w : ω) :
    c.Filed ((c.upsert events).run.run (answer source) (m, w)).2.1 := by
  have hkeeps : (c.upsert events).Ensures (keeping source c.Filed) (m, w)
      fun _ s => c.Filed s.1 := by
    refine Task.ensures_forM (g := (m, w)) (chunks maxWrites events) (fun _ s => c.Filed s.1) h ?_
    intro done chunk rest s hsplit hs
    refine (writePending_keeping (fun m' ws hm' => hm'.batchWrite) _ ?_ hs).mapError
    intro write hwrite
    obtain ⟨e, hmem, rfl⟩ := List.mem_map.mp hwrite
    exact ⟨e, he e (mem_of_mem_chunk (by simp [hsplit]) hmem), rfl⟩
  exact Program.Meets.run_keeping hkeeps h

theorem Upserted.filed (h : c.Upserted m) : c.Filed m := by
  induction h with
  | empty hkey h =>
    refine ⟨hkey, fun id item hi => ?_⟩
    rw [Memory.get?, h, Table.get?_empty] at hi
    cases hi
  | upsert h he source w ih => exact ih.upsert he source w
  | same h hs ih => exact ih.of_same hs

theorem Filed.keyed (h : c.Filed m) : (m.table c.live).Keyed idName := by
  intro id item hi
  obtain ⟨e, -, rfl, rfl⟩ := h.exists_event id item hi
  exact e.text?_toItem

/-- The live items are those of the events that stand in the table. -/
theorem Filed.mem_items_iff (h : c.Filed m) {item : Item} : item ∈ m.items c.live ↔
    ∃ e : Event, e.Precise ∧ m.get? c.live e.id = some e.toItem ∧ item = e.toItem := by
  rw [Memory.items, Table.mem_items]
  constructor
  · rintro ⟨id, hi⟩
    obtain ⟨e, he, rfl, rfl⟩ := h.exists_event id item hi
    exact ⟨e, he, hi, rfl⟩
  · rintro ⟨e, -, hi, rfl⟩
    exact ⟨e.id, hi⟩

end Catalogue

end GroupCalendar
