import GroupCalendar.Proofs.Import.Steps
import Mathlib.Logic.Hydra
import Mathlib.Logic.Relation

/-! # Progress of a run

A run goes on with any replies, and workers may break off anywhere. It comes to an end all the same,
since every worker goes through its program once, and it ends only when all workers have finished:
the permits that are not free are held by workers that can go on.
-/

namespace GroupCalendar.Import

variable {σ : Type}

namespace Worker

/-- Holds a permit. -/
def isWorking (w : Worker) : Bool :=
  match w.phase with
  | .working _ => true
  | _ => false

/-- The result of a worker that has finished. -/
def result? (w : Worker) : Option Result :=
  match w.phase with
  | .finished result => some result
  | _ => none

end Worker

/-- How a worker may end with the work that is left; it may break off at any place. -/
inductive Ends : Work → Result → Prop
  | done {x} : Ends (.done x) (.done x)
  | exhausted : Ends .exhausted .exhausted
  | broken {p} : Ends p .broken

namespace Run

/-- A worker takes a permit, goes on with some reply, or ends. -/
inductive Advances : Run σ → Run σ → Prop
  | start {r i group p} : r.workers[i]? = some ⟨group, .waiting p⟩ → r.free ≠ 0 →
      Advances r { r.setPhase i (.working p) with free := r.free - 1 }
  | reply {r i group q next} (x s) : r.workers[i]? = some ⟨group, .working (.ask q next)⟩ →
      Advances r { r.setPhase i (.working (next x)) with state := s }
  | finish {r i group p result} : r.workers[i]? = some ⟨group, .working p⟩ → Ends p result →
      Advances r (r.finish i result)

variable {r r' : Run σ}

/-- A step of a worker does nothing, or the run advances. -/
theorem step_eq_or_advances (handle : Handler σ) (i : Nat) (r : Run σ) :
    r.step handle i = r ∨ r.Advances (r.step handle i) := by
  unfold step phase?
  cases hw : r.workers[i]? with
  | none => exact .inl rfl
  | some w =>
    obtain ⟨group, phase⟩ := w
    match phase with
    | .waiting p =>
      by_cases hf : r.free = 0
      · exact .inl (if_pos hf)
      · simp only [Option.map_some, if_neg hf]
        exact .inr (.start hw hf)
    | .working (.done x) => exact .inr (.finish hw .done)
    | .working .broken => exact .inr (.finish hw .broken)
    | .working .exhausted => exact .inr (.finish hw .exhausted)
    | .working (.ask q next) => exact .inr (.reply _ _ hw)
    | .finished result => exact .inl rfl

/-- The steps of a schedule advance the run. -/
theorem advances_steps (handle : Handler σ) (r : Run σ) (schedule : List Nat) :
    Relation.ReflTransGen Advances r (r.steps handle schedule) := by
  induction schedule generalizing r with
  | nil => exact .refl
  | cons i rest ih =>
    rcases r.step_eq_or_advances handle i with h | h
    · have hr : r.steps handle (i :: rest) = r.steps handle rest := by
        change (r.step handle i).steps handle rest = _
        rw [h]
      rw [hr]
      exact ih r
    · exact .head h (ih _)

section Split

/-- A new phase of one worker, with the workers before and behind it. -/
theorem workers_setPhase {i : Nat} {w : Worker} (hw : r.workers[i]? = some w) (phase : Phase) :
    ∃ before behind, r.workers = before ++ w :: behind ∧
      (r.setPhase i phase).workers = before ++ { w with phase := phase } :: behind := by
  obtain ⟨hi, rfl⟩ := List.getElem?_eq_some_iff.mp hw
  refine ⟨r.workers.take i, r.workers.drop (i + 1), ?_, ?_⟩
  · rw [← List.drop_eq_getElem_cons hi, List.take_append_drop]
  · exact List.modify_eq_take_cons_drop hi

theorem groups_setPhase {i : Nat} {w : Worker} (hw : r.workers[i]? = some w) (phase : Phase) :
    (r.setPhase i phase).workers.map (·.group) = r.workers.map (·.group) := by
  obtain ⟨before, behind, hb, ha⟩ := r.workers_setPhase hw phase
  rw [hb, ha, List.map_append, List.map_append, List.map_cons, List.map_cons]

/-- Afterwards a worker is the one that has changed, or it was there before, under another name if
names are distinct. -/
theorem eq_or_mem_of_mem_setPhase {i : Nat} {w v : Worker} {phase : Phase}
    (hw : r.workers[i]? = some w) (hv : v ∈ (r.setPhase i phase).workers) :
    v = { w with phase := phase } ∨
      v ∈ r.workers ∧ ((r.workers.map (·.group)).Nodup → v.group ≠ w.group) := by
  obtain ⟨before, behind, hb, ha⟩ := r.workers_setPhase hw phase
  have hcases : v = { w with phase := phase } ∨ v ∈ before ++ behind := by
    rw [ha] at hv
    rcases List.mem_append.mp hv with hv | hv
    · exact .inr (List.mem_append_left _ hv)
    · exact (List.mem_cons.mp hv).imp_right (List.mem_append_right _)
  refine hcases.imp_right fun hv => ⟨?_, fun hn he => ?_⟩
  · rw [hb]
    exact ((List.sublist_cons_self w behind).append_left before).subset hv
  · rw [hb, List.map_append, List.map_cons, List.nodup_middle, ← List.map_append] at hn
    exact (List.nodup_cons.mp hn).1 (he ▸ List.mem_map_of_mem hv)

/-- What holds of all workers holds still if it does of the one that changes. -/
theorem forall_setPhase {P : Worker → Prop} {i : Nat} {w : Worker} {phase : Phase}
    (hw : r.workers[i]? = some w) (h : P { w with phase := phase }) (hr : ∀ v ∈ r.workers, P v) :
    ∀ v ∈ (r.setPhase i phase).workers, P v := by
  intro v hv
  rcases r.eq_or_mem_of_mem_setPhase hw hv with rfl | ⟨hv, -⟩
  · exact h
  · exact hr v hv

theorem Advances.groups_eq (h : r.Advances r') :
    r'.workers.map (·.group) = r.workers.map (·.group) := by
  cases h with
  | start hw _ | reply _ _ hw | finish hw _ => exact r.groups_setPhase hw _

end Split

section Permits

/-- The number of workers that hold a permit. -/
def busy (r : Run σ) : Nat := r.workers.countP Worker.isWorking

/-- Every permit is free or held by one worker. -/
def Balanced (r : Run σ) : Prop := r.free + r.busy = maxConcurrent

theorem balanced_of_idle (hw : ∀ w ∈ r.workers, w.isWorking = false)
    (hf : r.free = maxConcurrent) : r.Balanced := by
  have hbusy : r.busy = 0 := List.countP_eq_zero.mpr fun w hm => by simp [hw w hm]
  rw [Balanced, hbusy, hf, Nat.add_zero]

theorem balanced_start (work : String → Work) (groups : List String) (s : σ) :
    (Run.start work groups s).Balanced := by
  refine balanced_of_idle (fun w hw => ?_) rfl
  obtain ⟨g, -, rfl⟩ := List.mem_map.mp hw
  rfl

/-- A permit is taken at the start of a worker and given back however it ends. -/
theorem Advances.balanced (h : r.Advances r') (hr : r.Balanced) : r'.Balanced := by
  unfold Balanced busy at hr ⊢
  cases h with
  | @start i group p hw hf =>
    obtain ⟨before, behind, hb, ha⟩ := r.workers_setPhase hw (.working p)
    simp only [ha, hb, List.countP_append, List.countP_cons, Worker.isWorking] at hr ⊢
    simp only [Bool.false_eq_true, if_false, if_true] at hr ⊢
    omega
  | @reply i group q next x s hw =>
    obtain ⟨before, behind, hb, ha⟩ := r.workers_setPhase hw (.working (next x))
    have hfree : (r.setPhase i (.working (next x))).free = r.free := rfl
    simp only [ha, hb, hfree, List.countP_append, List.countP_cons, Worker.isWorking] at hr ⊢
    exact hr
  | @finish i group p result hw he =>
    obtain ⟨before, behind, hb, ha⟩ := r.workers_setPhase hw (.finished result)
    have hfree : (r.finish i result).free = r.free + 1 := rfl
    have hworkers : (r.finish i result).workers =
        before ++ ⟨group, .finished result⟩ :: behind := ha
    simp only [hfree, hworkers, hb, List.countP_append, List.countP_cons, Worker.isWorking] at hr ⊢
    simp only [Bool.false_eq_true, if_false, if_true] at hr ⊢
    omega

/-- As long as a worker has not finished, some worker can go on. -/
theorem exists_advances (hr : r.Balanced) {w : Worker} (hw : w ∈ r.workers)
    (hn : w.result? = none) : ∃ r', r.Advances r' := by
  by_cases hb : ∃ v ∈ r.workers, v.isWorking = true
  · obtain ⟨⟨group, phase⟩, hv, hwork⟩ := hb
    obtain ⟨i, hi⟩ := List.mem_iff_getElem?.mp hv
    match phase with
    | .working p => exact ⟨_, .finish hi .broken⟩
    | .waiting _ | .finished _ => cases hwork
  · -- Nobody works, so all permits are free and a waiting worker can start.
    have hbusy : r.busy = 0 := List.countP_eq_zero.mpr fun v hv hwork => hb ⟨v, hv, hwork⟩
    have hfree : r.free ≠ 0 := by
      have hall : r.free + r.busy = 3 := hr
      omega
    obtain ⟨i, hi⟩ := List.mem_iff_getElem?.mp hw
    obtain ⟨group, phase⟩ := w
    match phase with
    | .waiting p => exact ⟨_, .start hi hfree⟩
    | .working p => exact absurd ⟨_, hw, rfl⟩ hb
    | .finished _ => cases hn

/-- Where a run cannot go on, all workers have finished. -/
theorem result?_isSome_of_stuck (hr : r.Balanced) (hs : ∀ r', ¬ r.Advances r') :
    ∀ w ∈ r.workers, w.result?.isSome := by
  intro w hw
  by_contra hn
  obtain ⟨r', h⟩ := exists_advances hr hw (Option.not_isSome_iff_eq_none.mp hn)
  exact hs r' h

/-- Workers that have finished do nothing more. -/
theorem not_advances_of_finished (hf : ∀ w ∈ r.workers, w.result?.isSome) (r' : Run σ) :
    ¬ r.Advances r' := by
  have hnone : ∀ {i : Nat} {w : Worker}, r.workers[i]? = some w → w.result? = none → False := by
    intro i w hw hn
    have hs := hf w (List.mem_of_getElem? hw)
    rw [hn] at hs
    cases hs
  intro h
  cases h with
  | start hw _ | reply _ _ hw | finish hw _ => exact hnone hw rfl

end Permits

end Run

section Termination

/-- The first phase comes next after the second one. -/
inductive Phase.Follows : Phase → Phase → Prop
  | works {p} : Follows (.working p) (.waiting p)
  | goesOn {q next} (x) : Follows (.working (next x)) (.working (.ask q next))
  | ends {p result} : Follows (.finished result) (.working p)

theorem Phase.acc_finished (result : Result) : Acc Phase.Follows (.finished result) := by
  refine ⟨_, ?_⟩
  rintro phase ⟨⟩

/-- A worker goes through its program once. -/
theorem Phase.acc_working (p : Work) : Acc Phase.Follows (.working p) := by
  induction p with
  | done x | broken | exhausted =>
    refine ⟨_, ?_⟩
    rintro phase ⟨⟩
    exact acc_finished _
  | ask q next ih =>
    refine ⟨_, ?_⟩
    rintro phase (_ | x | _)
    · exact ih x
    · exact acc_finished _

theorem Phase.wellFounded_follows : WellFounded Phase.Follows := by
  refine ⟨fun phase => ?_⟩
  cases phase with
  | waiting p =>
    refine ⟨_, ?_⟩
    rintro phase ⟨⟩
    exact acc_working p
  | working p => exact acc_working p
  | finished result => exact acc_finished result

namespace Run

/-- The phases of all workers, each as often as there are workers in it. -/
def phases (r : Run σ) : Multiset Phase :=
  r.workers.map fun w => w.phase

theorem Advances.follows {r r' : Run σ} (h : r.Advances r') :
    Relation.CutExpand Phase.Follows r'.phases r.phases := by
  have hcut : ∀ {i : Nat} {w : Worker} {phase : Phase} {workers : List Worker},
      r.workers[i]? = some w → workers = (r.setPhase i phase).workers → phase.Follows w.phase →
      Relation.CutExpand Phase.Follows (workers.map fun w => w.phase : Multiset Phase)
        r.phases := by
    intro i w phase workers hw he hf
    obtain ⟨before, behind, hb, ha⟩ := r.workers_setPhase hw phase
    refine ⟨{phase}, w.phase, by simpa using hf, ?_⟩
    rw [he, phases, ha, hb]
    simp only [List.map_append, List.map_cons, ← Multiset.coe_add, ← Multiset.cons_coe,
      ← Multiset.singleton_add]
    ac_rfl
  cases h with
  | start hw _ => exact hcut hw rfl .works
  | reply x s hw => exact hcut hw rfl (.goesOn x)
  | finish hw _ => exact hcut hw rfl .ends

/-- No run goes on for ever. -/
theorem acc_advances (r : Run σ) : Acc (fun r' r : Run σ => r.Advances r') r := by
  refine Subrelation.accessible (r := InvImage (Relation.CutExpand Phase.Follows) phases)
    (fun h => h.follows) ?_
  exact (InvImage.wf phases Phase.wellFounded_follows.cutExpand).apply r

end Run

end Termination

end GroupCalendar.Import
