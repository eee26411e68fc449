import GroupCalendar.Proofs.Import.Effect
import GroupCalendar.Proofs.Import.Interleaving

/-! # What a run keeps of the events fetched

A worker compares with what it has listed itself. An event that one worker has listed may be
archived by another one that had read it as upcoming and has not listed it; in no other way does a
run in which all workers succeed lose what was fetched.
-/

namespace GroupCalendar.Import

open Store Service

section Success

variable {σ : Type}

/-- A worker has returned its counts. -/
def Worker.succeeded (w : Worker) : Bool :=
  match w.phase with
  | .finished (.done (.ok _)) => true
  | _ => false

def Run.allSucceeded (r : Run σ) : Bool :=
  r.workers.all Worker.succeeded

theorem Worker.Keeps.settled {c : Catalogue} {w : Worker} {l : Ledger} (h : w.Keeps c l)
    (hw : w.succeeded = true) : l.Settled := by
  obtain ⟨group, phase⟩ := w
  match phase with
  | .finished (.done (.ok g)) => exact h g rfl
  | .finished (.done (.error _)) | .finished .broken | .finished .exhausted | .waiting _
  | .working _ => cases hw

end Success

variable {ω : Type} {source : Source ω} {c : Catalogue} {r : Run (Memory × ω)}

theorem Accords.settled {ls : Nat → Ledger} (h : Accords c r ls) (hr : r.allSucceeded = true)
    (i : Nat) : (ls i).Settled := by
  have hi := h.workers i
  cases hw : r.workers[i]? with
  | none => rwa [hw] at hi
  | some w =>
    rw [hw] at hi
    exact hi.settled (List.all_eq_true.mp hr w (List.mem_of_getElem? hw))

/-- If all workers succeed, an event that one has listed is live as some worker has listed its id,
unless another worker has read the id as upcoming and has not listed it. -/
theorem listed_live_or_missed {pages : Nat} (hr : Ready c pages r.workers)
    (hc : c.Fits r.state.1.schema) (hk : r.state.1.Keyed) {schedule : List Nat}
    (hall : (r.steps (answer source) schedule).allSucceeded = true) {i : Nat} {e : Event}
    (he : e ∈ (r.ledgers c (answer source) schedule (fun _ => {}) i).listed) :
    (∃ j, ∃ e' ∈ (r.ledgers c (answer source) schedule (fun _ => {}) j).listed, e'.id = e.id ∧
      (r.steps (answer source) schedule).state.1.get? c.live e.id = some e'.toItem) ∨
    ∃ j ≠ i, e.id ∈ (r.ledgers c (answer source) schedule (fun _ => {}) j).read.map (·.id) ∧
      e.id ∉ (r.ledgers c (answer source) schedule (fun _ => {}) j).listed.map (·.id) := by
  have h : Accords c (r.steps (answer source) schedule)
      (r.ledgers c (answer source) schedule fun _ => {}) :=
    (accords_ready hr hc hk).steps schedule
  rcases h.saved i e.id (h.settled hall i e he) with hlive | ⟨j, hj⟩
  · exact .inl hlive
  · obtain ⟨hread, hlisted⟩ := h.erased j e.id hj
    refine .inr ⟨j, ?_, hread, hlisted⟩
    rintro rfl
    exact hlisted (List.mem_map_of_mem he)

section Sample

/-- The listing of group `b` holds an event of group `a`, and that of `a` is empty. -/
def sharedSource : Source Unit := sampleSite fun group _ =>
  if group = "b" then sampleAnswer [sampleEdge "x" "a" "2025-05-01T10:00+00:00"] ""
  else sampleAnswer [] ""

def sharedStart : Run (Memory × Unit) :=
  .start (fun g => (importGroup sampleCatalogue 2 sampleNow (cutoff sampleNow) g).run) ["b", "a"]
    (sampleMemory [] {}, ())

/-- Group `b` is imported before group `a`. -/
def sharedSchedule : List Nat :=
  List.replicate 5 0 ++ List.replicate 9 1

def sharedEvent : Event :=
  { id := "x", groupId := "a", dateTime := sampleInstant 1746093600 }

/-- The ledgers at the end. -/
def sharedLedgers : Nat → Ledger :=
  sharedStart.ledgers sampleCatalogue (answer sharedSource) sharedSchedule fun _ => {}

/-- Both workers succeed, and the event of the first is not live any more. -/
theorem shared_event_archived :
    (sharedStart.steps (answer sharedSource) sharedSchedule).allSucceeded = true ∧
      ∃ e ∈ (sharedLedgers 0).listed,
        (sharedStart.steps (answer sharedSource) sharedSchedule).state.1.get? sampleCatalogue.live
          e.id = none := by
  refine ⟨by decide +kernel, sharedEvent, by decide +kernel, ?_⟩
  exact Option.isNone_iff_eq_none.mp (by decide +kernel)

theorem listed_live_or_missed_shared :
    (∃ j, ∃ e' ∈ (sharedLedgers j).listed, e'.id = "x" ∧
      (sharedStart.steps (answer sharedSource) sharedSchedule).state.1.get? sampleCatalogue.live
        "x" = some e'.toItem) ∨
    ∃ j ≠ 0, "x" ∈ (sharedLedgers j).read.map (·.id) ∧
      "x" ∉ (sharedLedgers j).listed.map (·.id) := by
  have hc : sampleCatalogue.Fits sharedStart.state.1.schema := ⟨rfl, rfl, by decide⟩
  have he : sharedEvent ∈ (sharedLedgers 0).listed := by decide +kernel
  exact listed_live_or_missed (ready_start sampleCatalogue 2 _ _ _ _) hc
    (keyed_sampleMemory _ _) (by decide +kernel) he

end Sample

end GroupCalendar.Import
