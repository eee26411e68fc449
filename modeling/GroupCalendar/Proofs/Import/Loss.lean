import GroupCalendar.Proofs.Import.Effect
import GroupCalendar.Proofs.Import.Interleaving
import Mathlib.Logic.Relation

/-! # No event is lost

Whatever workers, faults, panics and new imports do one after the other, an id that is in one of
the two tables stays in one of them, and leaves the live table only when it is in the archive. The
ledgers of the workers carry this: what a worker deletes it has had acknowledged as archived.
-/

namespace GroupCalendar

open Store Service

namespace Catalogue

/-- An id is live or archived. -/
def Holds (c : Catalogue) (m : Memory) (id : String) : Prop :=
  (m.get? c.live id).isSome ∨ (m.get? c.archive id).isSome

/-- No id is lost, and one that is live no more was archived before. -/
structure Spares (c : Catalogue) (m m' : Memory) : Prop where
  holds : ∀ id, c.Holds m id → c.Holds m' id
  archived : ∀ id, c.Deleted m m' id → (m.get? c.archive id).isSome

variable {c : Catalogue} {m m' : Memory}

theorem Spares.of_same (h : m.Same m') : c.Spares m m' where
  holds id hi := by rwa [Holds, h.get?_eq, h.get?_eq]
  archived id hd := by
    obtain ⟨hs, hn⟩ := hd
    rw [h.get?_eq] at hn
    simp [hn] at hs

/-- Permitted writes spare what the ledger knows to be archived. -/
theorem Spares.of_wrote {l : Ledger} {table : String} {ws : List Write} (hc : c.Fits m.schema)
    (hw : m.Wrote table ws m') (hp : ∀ w ∈ ws, l.Permits c table w)
    (ha : ∀ id ∈ l.archived, (m.get? c.archive id).isSome) : c.Spares m m' where
  holds id hi := by
    have harchive : (m.get? c.archive id).isSome → c.Holds m' id := by
      intro hs
      rcases archive_cases hc hw hp id with ⟨hg, -⟩ | hs'
      · exact .inr (hg ▸ hs)
      · exact .inr hs'
    rcases hi with hlive | hs
    · rcases live_cases hc hw hp id with ⟨hg, -⟩ | ⟨e, -, -, hg⟩ | ⟨-, -, hl⟩
      · exact .inl (hg ▸ hlive)
      · exact .inl (Option.isSome_of_eq_some hg)
      · exact harchive (ha id hl)
    · exact harchive hs
  archived id hd := by
    obtain ⟨hs, hn⟩ := hd
    rcases live_cases hc hw hp id with ⟨hg, -⟩ | ⟨e, -, -, hg⟩ | ⟨-, -, hl⟩
    · rw [← hg, hn] at hs
      cases hs
    · cases hn.symm.trans hg
    · exact ha id hl

end Catalogue

namespace Import

variable {ω : Type}

/-- What may happen next: a step of a worker, a panic, other faults of the store, another state of
the source, and an import of any groups in place of the one that is going on. -/
inductive Moves (source : Source ω) (c : Catalogue) (pages : Nat) :
    Run (Memory × ω) → Run (Memory × ω) → Prop
  | step {r} (i : Nat) : Moves source c pages r (r.step (answer source) i)
  | panic {r} {i : Nat} {w} : r.workers[i]? = some w →
      Moves source c pages r (r.finish i .broken)
  | faults {r} (f : Faults) : Moves source c pages r
      { r with state := ({ r.state.1 with faults := f }, r.state.2) }
  | source {r} (w : ω) : Moves source c pages r { r with state := (r.state.1, w) }
  | restart {r r'} : Ready c pages r'.workers → r'.state = r.state → Moves source c pages r r'

variable {source : Source ω} {c : Catalogue} {pages : Nat} {r r' : Run (Memory × ω)}
  {ls : Nat → Ledger}

theorem moves_steps (r : Run (Memory × ω)) (schedule : List Nat) :
    Relation.ReflTransGen (Moves source c pages) r (r.steps (answer source) schedule) := by
  induction schedule generalizing r with
  | nil => exact .refl
  | cons i rest ih => exact .head (.step i) (ih _)

/-- A scheduled import is made of moves, also when its deadline cuts it off. -/
theorem moves_complete (deadline : Option Nat) (fuel : Nat) (s : Schedule (Memory × ω)) :
    Relation.ReflTransGen (Moves source c pages) s.run
      (s.complete (answer source) deadline fuel).2.run := by
  have hwait : ∀ millis (s : Memory × ω), answer source (.wait millis) s = ((), s) :=
    fun _ _ => rfl
  obtain ⟨schedule, h⟩ := Schedule.complete_steps hwait deadline fuel s
  rw [h]
  exact moves_steps s.run schedule

theorem Accords.spares_step (h : Accords c r ls) (i : Nat) :
    c.Spares r.state.1 (r.step (answer source) i).state.1 := by
  rcases r.step_cases c (answer source) i ls with
    ⟨hr, -⟩ | ⟨w, phase, -, -, -, hs, -⟩ | ⟨group, q, next, hw, -, hs, -⟩
  · rw [hr]
    exact .of_same (.refl _)
  · rw [hs]
    exact .of_same (.refl _)
  · rw [hs]
    have hi := h.workers i
    rw [hw] at hi
    by_cases hq : ∃ table ws, q = .store (.batchWrite table ws)
    · obtain ⟨table, ws, rfl⟩ := hq
      obtain ⟨done, hd, hm, -⟩ := r.state.1.batchWrite_wrote table ws
      exact .of_wrote h.fits hm (fun w hw => hi.1 w (hd.subset hw)) (h.archived i)
    · exact .of_same (answer_same (fun table ws e => hq ⟨table, ws, e⟩) r.state.2)

theorem Accords.same (h : Accords c r ls) (hm : r.state.1.Same r'.state.1)
    (hw : r'.workers = r.workers) : Accords c r' ls := by
  have hl : Accords c r' (Function.update ls 0 (ls 0)) := by
    refine h.learns (.refl _) hm ?_
    rw [Function.update_eq_self, hw]
    exact h.workers
  rwa [Function.update_eq_self] at hl

theorem Accords.panics {i : Nat} {w : Worker} (h : Accords c r ls) (hw : r.workers[i]? = some w) :
    Accords c (r.finish i .broken) ls := by
  have hl : Accords c (r.finish i .broken) (Function.update ls i (ls i)) := by
    refine h.learns (.refl _) (.refl _) (h.workers_update hw rfl ?_)
    rintro g ⟨⟩
  rwa [Function.update_eq_self] at hl

/-- Whatever happens next, some ledgers accord with it, and nothing is lost. -/
theorem Accords.moves (h : Accords c r ls) (hm : Moves source c pages r r') :
    (∃ ls', Accords c r' ls') ∧ c.Spares r.state.1 r'.state.1 := by
  cases hm with
  | step i => exact ⟨⟨_, h.step i⟩, h.spares_step i⟩
  | panic hw => exact ⟨⟨ls, h.panics hw⟩, .of_same (.refl _)⟩
  | faults f =>
    have hs : r.state.1.Same { r.state.1 with faults := f } := ⟨rfl, fun _ => rfl⟩
    exact ⟨⟨ls, h.same hs rfl⟩, .of_same hs⟩
  | source w => exact ⟨⟨ls, h.same (.refl _) rfl⟩, .of_same (.refl _)⟩
  | restart hr hs =>
    refine ⟨⟨_, accords_ready hr ?_ ?_⟩, ?_⟩
    · rw [hs]
      exact h.fits
    · rw [hs]
      exact h.keyed
    · rw [hs]
      exact .of_same (.refl _)

theorem accords_of_moves {r₀ : Run (Memory × ω)} (h₀ : Accords c r₀ ls)
    (h : Relation.ReflTransGen (Moves source c pages) r₀ r) :
    (∃ ls', Accords c r ls') ∧ ∀ id, c.Holds r₀.state.1 id → c.Holds r.state.1 id := by
  induction h with
  | refl => exact ⟨⟨ls, h₀⟩, fun _ hi => hi⟩
  | tail _ hm ih =>
    obtain ⟨⟨ls', h⟩, hholds⟩ := ih
    obtain ⟨hnext, hspares⟩ := h.moves hm
    exact ⟨hnext, fun id hi => hspares.holds id (hholds id hi)⟩

/-- In whatever happens after the start of an import no id is lost: none by the next move, none by
all moves together, and one leaves the live table only when it is in the archive already. -/
theorem no_event_lost {r₀ : Run (Memory × ω)} (hr : Ready c pages r₀.workers)
    (hc : c.Fits r₀.state.1.schema) (hk : r₀.state.1.Keyed)
    (h : Relation.ReflTransGen (Moves source c pages) r₀ r) (hm : Moves source c pages r r')
    (id : String) :
    (c.Holds r₀.state.1 id → c.Holds r.state.1 id) ∧
    (c.Holds r.state.1 id → c.Holds r'.state.1 id) ∧
    (c.Deleted r.state.1 r'.state.1 id → (r.state.1.get? c.archive id).isSome) := by
  obtain ⟨⟨ls, haccords⟩, hholds⟩ := accords_of_moves (accords_ready hr hc hk) h
  obtain ⟨-, hspares⟩ := haccords.moves hm
  exact ⟨hholds id, hspares.holds id, hspares.archived id⟩

section Sample

def sampleStart : Run (Memory × Unit) :=
  .start (fun g => (importGroup sampleCatalogue 2 sampleNow (cutoff sampleNow) g).run) ["a"]
    (storedSample, ())

/-- The import of the sample up to its last request, which deletes what is gone. -/
def beforeDeletion : Run (Memory × Unit) :=
  sampleStart.steps (answer listedSample) (List.replicate 8 0)

theorem no_event_lost_sample :
    sampleCatalogue.Deleted beforeDeletion.state.1
      (beforeDeletion.step (answer listedSample) 0).state.1 "gone" ∧
    sampleCatalogue.Holds (beforeDeletion.step (answer listedSample) 0).state.1 "gone" ∧
    (beforeDeletion.state.1.get? sampleCatalogue.archive "gone").isSome := by
  have hc : sampleCatalogue.Fits sampleStart.state.1.schema := ⟨rfl, rfl, by decide⟩
  have hlive : (beforeDeletion.state.1.get? sampleCatalogue.live "gone").isSome := by
    decide +kernel
  have hnone : (beforeDeletion.step (answer listedSample) 0).state.1.get? sampleCatalogue.live
      "gone" = none := Option.isNone_iff_eq_none.mp (by decide +kernel)
  have hready : Ready sampleCatalogue 2 sampleStart.workers :=
    ready_start sampleCatalogue 2 (fun _ => sampleNow) (cutoff sampleNow) ["a"] (storedSample, ())
  have hreach : Relation.ReflTransGen (Moves listedSample sampleCatalogue 2) sampleStart
      beforeDeletion := moves_steps sampleStart _
  have hlost := no_event_lost hready hc (keyed_sampleMemory _ _) hreach (.step 0) "gone"
  exact ⟨⟨hlive, hnone⟩, hlost.2.1 (.inl hlive), hlost.2.2 ⟨hlive, hnone⟩⟩

end Sample

end Import

end GroupCalendar
