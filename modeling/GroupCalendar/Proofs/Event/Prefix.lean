import GroupCalendar.Proofs.Import.Effect
import GroupCalendar.Proofs.Store.Parts

/-! # Upserts that fail halfway

Whatever faults come up during an upsert, the live table holds the items of the first events of the
list, put in the order of the list, and of all of them only if the upsert has succeeded.
-/

namespace GroupCalendar

open Store Service

/-- What stands under an id after events have been put is the item of the last event with the id. -/
theorem Store.Table.get?_apply_events (t : Table) (events : List Event) (id : String) :
    (t.apply Catalogue.idName (events.map fun e => .put e.toItem)).get? id =
      ((events.reverse.find? (·.id = id)).map Event.toItem).or (t.get? id) := by
  induction events generalizing t with
  | nil => rfl
  | cons e events ih =>
    change ((Write.applyTo Catalogue.idName (.put e.toItem) t).apply Catalogue.idName
      (events.map _)).get? id = _
    rw [ih, Write.applyTo, e.text?_toItem, Option.elim_some, get?_insert, List.reverse_cons,
      List.find?_append]
    cases events.reverse.find? (·.id = id) with
    | some last => rfl
    | none =>
      by_cases he : e.id = id
      · simp [he]
      · simp [he]

namespace Catalogue

variable {σ ω : Type} {handle : (r : Service.Request) → σ → Service.Reply r × σ}
  {view : σ → Memory} {c : Catalogue}

/-- Chunks of events are put up to the first write that fails. -/
theorem upsertChunks_returns (h : SoleWriter handle view) (c : Catalogue) (chunks : List (List Event))
    (s : σ) :
    (chunks.forM fun chunk => Task.mapError CatalogueError.ofStore
      (writeAll c.live (chunk.map fun e => .put e.toItem))).Returns handle s fun x s' =>
        (view s).WrotePart c.live (chunks.flatten.map fun e => .put e.toItem) x (view s') := by
  induction chunks generalizing s with
  | nil => exact Task.returns_pure (Memory.wrotePart_nil (.refl _))
  | cons chunk chunks ih =>
    rw [List.flatten_cons, List.map_append]
    have hchunk : (Task.mapError CatalogueError.ofStore
        (writeAll c.live (chunk.map fun e => .put e.toItem))).Returns handle s fun x s' =>
          (view s).WrotePart c.live (chunk.map fun e => .put e.toItem) x (view s') := by
      refine Task.Returns.mapError ?_
      obtain ⟨x, s', hrun, hpart⟩ := writePending_returns h c.live maxAttempts _ s
      exact ⟨x, s', hrun, hpart.mapError _⟩
    refine hchunk.bind (fun _ s₁ hpart => ?_) fun e s₁ hpart => hpart.before _
    obtain ⟨x, s₂, hrun, hrest⟩ := ih s₁
    exact ⟨x, s₂, hrun, hrest.after hpart.wrote⟩

/-- With no other writer an upsert always ends, and then the events of a front part of the list, and
of no other one, have been put in order: under each id stands the item of the last of them, or what
stood there before. It is the whole list exactly if the upsert succeeds. No other table changes, and
nothing is asked for an empty list. -/
theorem upsert_puts_prefix (h : SoleWriter handle view) (c : Catalogue) (events : List Event)
    (s : σ) :
    ∃ x s' front rest, (c.upsert events).run.run handle s = (.done x, s') ∧
      events = front ++ rest ∧ (rest = [] ↔ x = .ok ()) ∧
      (view s').table c.live = ((view s).table c.live).apply ((view s).schema.keyName c.live)
        (front.map fun e => .put e.toItem) ∧
      ((view s).schema.keyName c.live = idName → ∀ id, (view s').get? c.live id =
        ((front.reverse.find? (·.id = id)).map Event.toItem).or ((view s).get? c.live id)) ∧
      (∀ other, other ≠ c.live → (view s').table other = (view s).table other) ∧
      (events = [] → s' = s) := by
  obtain ⟨x, s', hrun, done, rest, hsplit, hwrote, hiff⟩ :=
    upsertChunks_returns h c (chunks maxWrites events) s
  rw [flatten_chunks events (by decide)] at hsplit
  obtain ⟨front, rest, rfl, rfl, rfl⟩ := List.map_eq_append_iff.mp hsplit
  refine ⟨x, s', front, rest, hrun, rfl, ?_, hwrote.table_eq, ?_, hwrote.other_eq, ?_⟩
  · rw [← hiff, List.map_eq_nil_iff]
  · intro hkey id
    rw [Memory.get?, hwrote.table_eq, hkey, Table.get?_apply_events]
    rfl
  · intro hnil
    rw [hnil] at hrun
    exact (Prod.mk.inj hrun).2.symm

section Sample

open Import

/-- Two events with one id, and one between them. -/
def repeatedEvents : List Event :=
  [{ id := "x", title := "first" }, { id := "y" }, { id := "x", title := "last" }]

/-- The store is out of order when the last event is sent again, after a pause. -/
def outage (n : Nat) (f : Faults) : Faults :=
  if n = 2 then { f with nextError := some (.write "out of order") } else f

/-- The last write of the first batch stays unprocessed. -/
def repeatedStart : Memory :=
  sampleMemory [] { unprocessedWrites := [1] }

/-- Without an outage the last event of an id wins, and with it the events before. -/
theorem upsert_puts_prefix_outage :
    (∃ s', (sampleCatalogue.upsert repeatedEvents).run.run (answer listedSample)
        (repeatedStart, ()) = (.done (.ok ()), s') ∧
      s'.1.get? sampleCatalogue.live "x" = some (Event.toItem { id := "x", title := "last" })) ∧
    ∃ e s' front rest, (sampleCatalogue.upsert repeatedEvents).run.run
        (disturbed outage listedSample) ((repeatedStart, ()), 0) = (.done (.error e), s') ∧
      repeatedEvents = front ++ rest ∧ rest ≠ [] ∧
      ∀ id, s'.1.1.get? sampleCatalogue.live id =
        (front.reverse.find? (·.id = id)).map Event.toItem := by
  constructor
  · obtain ⟨x, s', front, rest, hrun, hsplit, hiff, -, hlast, -⟩ :=
      upsert_puts_prefix (soleWriter_answer listedSample) sampleCatalogue repeatedEvents
        (repeatedStart, ())
    have hok : ((sampleCatalogue.upsert repeatedEvents).run.run (answer listedSample)
        (repeatedStart, ())).1.value?.isSome = true := by decide +kernel
    rw [hrun] at hok
    cases x with
    | error e => cases hok
    | ok _ =>
      obtain rfl := hiff.mpr rfl
      rw [List.append_nil] at hsplit
      refine ⟨s', hrun, ?_⟩
      rw [hlast rfl, ← hsplit]
      rfl
  · obtain ⟨x, s', front, rest, hrun, hsplit, hiff, -, hlast, -⟩ :=
      upsert_puts_prefix (soleWriter_disturbed outage listedSample) sampleCatalogue repeatedEvents
        ((repeatedStart, ()), 0)
    have hbad : ((sampleCatalogue.upsert repeatedEvents).run.run (disturbed outage listedSample)
        ((repeatedStart, ()), 0)).1.value?.isNone = true := by decide +kernel
    rw [hrun] at hbad
    cases x with
    | ok _ => cases hbad
    | error e =>
      have hne : rest ≠ [] := fun hnil => nomatch hiff.mp hnil
      refine ⟨e, s', front, rest, hrun, hsplit, hne, fun id => ?_⟩
      rw [hlast rfl id]
      exact Option.or_none

end Sample

end Catalogue

end GroupCalendar
