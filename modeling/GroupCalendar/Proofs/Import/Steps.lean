import GroupCalendar.Import.Schedule

/-! # Steps and turns

A turn of a worker is a number of its steps, so a scheduled import goes through the steps of some
schedule, also when its deadline cuts it off. What holds after any steps holds after it.
-/

namespace GroupCalendar.Import

variable {σ : Type} {handle : Handler σ}

namespace Run

theorem setPhase_setPhase (r : Run σ) (i : Nat) (phase phase' : Phase) :
    (r.setPhase i phase).setPhase i phase' = r.setPhase i phase' := by
  unfold setPhase
  rw [List.modify_modify_eq]
  rfl

theorem steps_append (r : Run σ) (schedule later : List Nat) :
    r.steps handle (schedule ++ later) = (r.steps handle schedule).steps handle later :=
  List.foldl_append

theorem getElem?_setPhase (r : Run σ) (i j : Nat) (phase : Phase) :
    (r.setPhase i phase).workers[j]? =
      (r.workers[j]?).map fun w => if i = j then { w with phase := phase } else w := by
  unfold setPhase
  rw [List.getElem?_modify]
  split <;> rfl

theorem getElem?_setPhase_self {r : Run σ} {i : Nat} {w : Worker} (hw : r.workers[i]? = some w)
    (phase : Phase) : (r.setPhase i phase).workers[i]? = some { w with phase := phase } := by
  rw [getElem?_setPhase, hw]
  simp

/-- What worker `i` does next with the work that is left. -/
def act (handle : Handler σ) (i : Nat) (r : Run σ) : Work → Run σ
  | .done a => r.finish i (.done a)
  | .broken => r.finish i .broken
  | .exhausted => r.finish i .exhausted
  | .ask q next =>
    { r.setPhase i (.working (next (handle q r.state).1)) with state := (handle q r.state).2 }

theorem step_of_working {r : Run σ} {i : Nat} {group : String} {p : Work}
    (hw : r.workers[i]? = some ⟨group, .working p⟩) : r.step handle i = r.act handle i p := by
  have hp : r.phase? i = some (.working p) := by
    unfold phase?
    rw [hw]
    rfl
  unfold step
  rw [hp]
  cases p <;> rfl

end Run

/-- A run after a turn of worker `i`. -/
def Turn.after (i : Nat) (r : Run σ) : Turn × σ → Run σ
  | (.waits _ next, s) => { r.setPhase i (.working next) with state := s }
  | (.ends result, s) => { r.finish i result with state := s }

theorem Turn.after_setPhase (i : Nat) (r : Run σ) (phase : Phase) (s : σ) (t : Turn × σ) :
    Turn.after i { r.setPhase i phase with state := s } t = Turn.after i r t := by
  obtain ⟨turn, s'⟩ := t
  have h := r.setPhase_setPhase i phase
  cases turn with
  | waits millis next =>
    exact congrArg (fun r : Run σ => { r with state := s' }) (h (.working next))
  | ends result =>
    exact congrArg (fun r : Run σ => { r with free := r.free + 1, state := s' })
      (h (.finished result))

/-- A turn is a number of steps, if a wait changes nothing. -/
theorem takeTurn_steps (hwait : ∀ millis s, handle (.wait millis) s = ((), s)) {i : Nat}
    {group : String} {p : Work} {r : Run σ} (hw : r.workers[i]? = some ⟨group, .working p⟩) :
    ∃ k, r.steps handle (List.replicate k i) = Turn.after i r (takeTurn handle p r.state) := by
  induction p generalizing r with
  | done a => exact ⟨1, Run.step_of_working hw⟩
  | broken => exact ⟨1, Run.step_of_working hw⟩
  | exhausted => exact ⟨1, Run.step_of_working hw⟩
  | ask q next ih =>
    have hstep : r.step handle i = r.act handle i (.ask q next) := Run.step_of_working hw
    have hgo : ∃ k, r.steps handle (List.replicate (k + 1) i) =
        Turn.after i r (takeTurn handle (next (handle q r.state).1) (handle q r.state).2) := by
      obtain ⟨k, hk⟩ := ih (handle q r.state).1
        (r := { r.setPhase i (.working (next (handle q r.state).1)) with
          state := (handle q r.state).2 }) (Run.getElem?_setPhase_self hw _)
      refine ⟨k, ?_⟩
      rw [Turn.after_setPhase] at hk
      rw [List.replicate_succ]
      change (r.step handle i).steps handle _ = _
      rw [hstep]
      exact hk
    cases q with
    | wait millis =>
      refine ⟨1, hstep.trans ?_⟩
      exact congrArg (fun reply : Unit × σ =>
        { r.setPhase i (.working (next reply.1)) with state := reply.2 }) (hwait millis r.state)
    | store q | graphQl query arguments =>
      obtain ⟨k, hk⟩ := hgo
      exact ⟨k + 1, hk⟩

namespace Schedule

variable {s : Schedule σ} {i : Nat}

theorem work_steps (hwait : ∀ millis s, handle (.wait millis) s = ((), s)) {group : String}
    {p : Work} (hw : s.run.workers[i]? = some ⟨group, .working p⟩) :
    ∃ k, (s.work handle i p).run = s.run.steps handle (List.replicate k i) := by
  obtain ⟨k, hk⟩ := takeTurn_steps hwait hw
  refine ⟨k, ?_⟩
  rw [hk, work]
  cases takeTurn handle p s.run.state with
  | mk turn state => cases turn <;> rfl

theorem turn_of_full {p : Work} (hp : s.run.phase? i = some (.waiting p)) (hf : s.run.free = 0) :
    (s.turn handle i).run = s.run := by
  unfold turn
  rw [hp]
  dsimp only
  rw [if_pos hf]

/-- Taking a permit is a step of its own. -/
theorem turn_of_free {p : Work} (hp : s.run.phase? i = some (.waiting p)) (hf : s.run.free ≠ 0) :
    s.turn handle i =
      Schedule.work handle i p { s with run := s.run.step handle i } := by
  have hstep : s.run.step handle i =
      { s.run.setPhase i (.working p) with free := s.run.free - 1 } := by
    unfold Run.step
    rw [hp]
    exact if_neg hf
  rw [hstep]
  unfold turn
  rw [hp]
  exact if_neg hf

theorem turn_steps (hwait : ∀ millis s, handle (.wait millis) s = ((), s)) (s : Schedule σ)
    (i : Nat) : ∃ k, (s.turn handle i).run = s.run.steps handle (List.replicate k i) := by
  have hphase : s.run.phase? i = (s.run.workers[i]?).map fun w => w.phase := rfl
  cases hw : s.run.workers[i]? with
  | none =>
    rw [hw] at hphase
    refine ⟨0, ?_⟩
    rw [turn, hphase]
    rfl
  | some w =>
    obtain ⟨group, phase⟩ := w
    rw [hw] at hphase
    cases phase with
    | finished result =>
      refine ⟨0, ?_⟩
      rw [turn, hphase]
      rfl
    | working p =>
      rw [turn, hphase]
      exact work_steps hwait hw
    | waiting p =>
      by_cases hf : s.run.free = 0
      · exact ⟨0, turn_of_full hphase hf⟩
      · have hworking : (s.run.step handle i).workers[i]? = some ⟨group, .working p⟩ := by
          unfold Run.step
          rw [hphase]
          dsimp only [Option.map_some]
          rw [if_neg hf]
          exact Run.getElem?_setPhase_self hw _
        obtain ⟨k, hk⟩ := work_steps hwait (s := { s with run := s.run.step handle i }) hworking
        refine ⟨k + 1, ?_⟩
        rw [turn_of_free hphase hf, hk, List.replicate_succ]
        rfl

theorem go_steps (hwait : ∀ millis s, handle (.wait millis) s = ((), s)) (deadline : Option Nat)
    (fuel : Nat) (s : Schedule σ) :
    ∃ schedule, (go handle deadline fuel s).2.run = s.run.steps handle schedule := by
  induction fuel generalizing s with
  | zero => exact ⟨[], rfl⟩
  | succ fuel ih =>
    unfold go
    cases s.ready with
    | cons i rest =>
      obtain ⟨k, hk⟩ := turn_steps hwait { s with ready := rest } i
      obtain ⟨schedule, hs⟩ := ih (Schedule.turn handle i { s with ready := rest })
      refine ⟨List.replicate k i ++ schedule, ?_⟩
      rw [Run.steps_append, ← hk]
      exact hs
    | nil =>
      cases s.nextWake? with
      | none => exact ⟨[], rfl⟩
      | some time =>
        cases deadline with
        | none => exact ih (s.wake time)
        | some limit =>
          dsimp only
          split
          · exact ⟨[], rfl⟩
          · exact ih (s.wake time)

/-- A scheduled import takes the steps of some schedule, however it ends. -/
theorem complete_steps (hwait : ∀ millis s, handle (.wait millis) s = ((), s))
    (deadline : Option Nat) (fuel : Nat) (s : Schedule σ) :
    ∃ schedule, (complete handle deadline fuel s).2.run = s.run.steps handle schedule := by
  unfold complete
  split
  · exact ⟨[], rfl⟩
  · exact go_steps hwait deadline fuel s

end Schedule

end GroupCalendar.Import
