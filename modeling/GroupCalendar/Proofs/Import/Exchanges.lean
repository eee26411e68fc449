import GroupCalendar.Proofs.Import.Progress
import GroupCalendar.Proofs.Program.Exchange

/-! # Exchanges of a worker

The requests that one worker makes in the course of a run, and the replies it gets. Whatever the
other workers do in between, a worker that meets a contract on exchanges makes no others.
-/

namespace GroupCalendar.Import

variable {σ : Type}

namespace Run

/-- What worker `i` exchanges when it takes the next step. -/
def exchange? (handle : Handler σ) (i : Nat) (r : Run σ) : Option (Exchange Service.signature) :=
  match r.phase? i with
  | some (.working (.ask q _)) => some ⟨q, (handle q r.state).1⟩
  | _ => none

/-- What worker `i` exchanges in the steps of a schedule, in which others take steps as well. -/
def exchanges (handle : Handler σ) (i : Nat) :
    List Nat → Run σ → List (Exchange Service.signature)
  | [], _ => []
  | j :: rest, r =>
    (if j = i then (r.exchange? handle i).toList else []) ++
      exchanges handle i rest (r.step handle j)

end Run

/-- A worker with some exchanges behind it keeps to what is allowed, and its result is as wanted. -/
def Worker.KeepsTo (allowed : List (Exchange Service.signature) → Service.Request → Prop)
    (post : Except ImportError GroupImport → List (Exchange Service.signature) → Prop)
    (w : Worker) (log : List (Exchange Service.signature)) : Prop :=
  match w.phase with
  | .waiting p | .working p => p.Meets (.logged allowed) log post
  | .finished result => ∀ x, result = .done x → post x log

section Steps

variable {allowed : List (Exchange Service.signature) → Service.Request → Prop}
  {post : Except ImportError GroupImport → List (Exchange Service.signature) → Prop}
  {log : List (Exchange Service.signature)} {r : Run σ} {i : Nat} {w : Worker}

/-- The steps of other workers leave a worker as it is. -/
theorem Run.getElem?_step_of_ne (handle : Handler σ) (r : Run σ) {i j : Nat} (h : j ≠ i) :
    (r.step handle j).workers[i]? = r.workers[i]? := by
  have hset : ∀ phase, (r.setPhase j phase).workers[i]? = r.workers[i]? := by
    intro phase
    rw [Run.getElem?_setPhase]
    cases r.workers[i]? with
    | none => rfl
    | some w => simp [h]
  unfold Run.step
  split
  · split
    · rfl
    · exact hset _
  · exact hset _
  · exact hset _
  · exact hset _
  · exact hset _
  · rfl
  · rfl

/-- A step of the worker itself is allowed, and adds what it exchanges. -/
theorem Worker.KeepsTo.step_self (handle : Handler σ) (hw : r.workers[i]? = some w)
    (h : w.KeepsTo allowed post log) :
    (∀ x, r.exchange? handle i = some x → allowed log x.request) ∧
    ∃ w', (r.step handle i).workers[i]? = some w' ∧
      w'.KeepsTo allowed post (log ++ (r.exchange? handle i).toList) := by
  obtain ⟨group, phase⟩ := w
  have hphase : r.phase? i = some phase := by
    unfold Run.phase?
    rw [hw]
    rfl
  have hset := Run.getElem?_setPhase_self hw
  unfold Run.step Run.exchange?
  rw [hphase]
  match phase with
  | .waiting p =>
    refine ⟨fun _ hx => (by cases hx), ?_⟩
    rw [Option.toList_none, List.append_nil]
    by_cases hf : r.free = 0
    · refine ⟨_, ?_, h⟩
      simpa only [if_pos hf] using hw
    · refine ⟨⟨group, .working p⟩, ?_, h⟩
      simpa only [if_neg hf] using hset (.working p)
  | .working (.done x) =>
    refine ⟨fun _ hx => (by cases hx), _, hset _, ?_⟩
    rw [Option.toList_none, List.append_nil]
    rintro y ⟨⟩
    exact h
  | .working .broken | .working .exhausted =>
    refine ⟨fun _ hx => (by cases hx), _, hset _, ?_⟩
    rintro y ⟨⟩
  | .working (.ask q next) =>
    obtain ⟨hallowed, hnext⟩ := h
    refine ⟨?_, _, hset _, hnext _ _ rfl⟩
    rintro x ⟨⟩
    exact hallowed
  | .finished result =>
    refine ⟨fun _ hx => (by cases hx), _, hw, ?_⟩
    rw [Option.toList_none, List.append_nil]
    exact h

/-- Whatever the others do, a worker keeps to what is allowed in the steps of any schedule, and so
its exchanges keep whatever an allowed one keeps. -/
theorem Worker.KeepsTo.steps {p : List (Exchange Service.signature) → Prop}
    (hp : ∀ log x, p log → allowed log x.request → p (log ++ [x]))
    (hw : r.workers[i]? = some w) (h : w.KeepsTo allowed post log) (hlog : p log)
    (handle : Handler σ) (schedule : List Nat) :
    p (log ++ r.exchanges handle i schedule) ∧
    ∃ w', (r.steps handle schedule).workers[i]? = some w' ∧
      w'.KeepsTo allowed post (log ++ r.exchanges handle i schedule) := by
  induction schedule generalizing r w log with
  | nil =>
    rw [Run.exchanges, List.append_nil]
    exact ⟨hlog, w, hw, h⟩
  | cons j rest ih =>
    rw [Run.exchanges]
    by_cases hj : j = i
    · subst hj
      obtain ⟨hallowed, w', hw', h'⟩ := h.step_self handle hw
      rw [if_pos rfl, ← List.append_assoc]
      refine ih hw' h' ?_
      cases hx : r.exchange? handle j with
      | none => simpa using hlog
      | some x => exact hp log x hlog (hallowed x hx)
    · rw [if_neg hj, List.nil_append]
      exact ih ((Run.getElem?_step_of_ne handle r hj).trans hw) h hlog

end Steps

end GroupCalendar.Import
