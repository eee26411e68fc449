import GroupCalendar.Import.Summary
import GroupCalendar.Proofs.Import.Effect
import GroupCalendar.Proofs.Import.Progress

/-! # The report of an import

The summary names every group as often as it was configured: among those that succeeded if the run
of its worker returned the counts, and else among those that failed. A worker that broke off is
found under its number, in whatever order the workers come back.
-/

namespace GroupCalendar

namespace Import

open Store Service

variable {σ : Type} {ws : List Worker} {order : List Nat}

section Workers

namespace Worker

/-- The counts that the import of a group has returned. -/
def counts? (w : Worker) : Option GroupImport :=
  w.result?.bind Outcome.value?

/-- The group of a worker whose import has not returned counts. -/
def failure? (w : Worker) : Option String :=
  if w.counts?.isNone then some w.group else none

/-- Whatever comes, the counts that a worker returns are those of its group. -/
def TellsGroup (w : Worker) : Prop :=
  match w.phase with
  | .waiting p | .working p =>
    p.Meets (.only fun _ => True) () fun x _ => ∀ g, x = .ok g → g.group = w.group
  | .finished result => ∀ g, result.value? = some g → g.group = w.group

end Worker

theorem importGroup_tellsGroup (c : Catalogue) (pages : Nat) (now limit : Instant)
    (group : String) :
    (importGroup c pages now limit group).Ensures (.only fun _ => True) () fun g _ =>
      g.group = group := by
  have hany : ∀ {ε α : Type} (t : Task ε α),
      t.Ensures (.only fun _ => True) () fun _ _ => True := fun t =>
    t.run.meets_any _ fun _ _ _ => trivial
  refine (hany _).bind fun stored _ _ => ?_
  refine (hany _).bind fun incoming _ _ => ?_
  refine (hany _).bind fun _ _ _ => ?_
  refine (hany _).bind fun _ _ _ => ?_
  exact Task.ensures_pure rfl

/-- The counts that a worker has returned are those of its group. -/
theorem Worker.TellsGroup.counts {w : Worker} (h : w.TellsGroup) {g : GroupImport}
    (hg : w.counts? = some g) : g.group = w.group := by
  obtain ⟨result, hr, hv⟩ := Option.bind_eq_some_iff.mp hg
  obtain ⟨group, phase⟩ := w
  cases phase with
  | finished x =>
    obtain rfl := Option.some.inj hr
    exact h g hv
  | waiting p | working p => cases hr

/-- The worker that has changed tells its group still. -/
theorem Run.Advances.tellsGroup {r r' : Run σ} (h : r.Advances r')
    (hr : ∀ w ∈ r.workers, w.TellsGroup) : ∀ w ∈ r'.workers, w.TellsGroup := by
  cases h with
  | start hw _ =>
    have hwait := hr _ (List.mem_of_getElem? hw)
    exact Run.forall_setPhase hw hwait hr
  | reply x s hw =>
    have hask := hr _ (List.mem_of_getElem? hw)
    exact Run.forall_setPhase hw (hask.2 x () trivial) hr
  | finish hw he =>
    refine Run.forall_setPhase hw ?_ hr
    have hwork := hr _ (List.mem_of_getElem? hw)
    cases he with
    | done =>
      intro g hg
      exact hwork g (Outcome.done.inj (Outcome.eq_of_value? hg))
    | exhausted | broken => rintro g ⟨⟩

/-- What holds of a run from its start: its workers are those of the groups, no permit is lost, and
nothing comes back under a wrong name. -/
structure Run.Reporting (groups : List String) (r : Run σ) : Prop where
  groups_eq : r.workers.map (·.group) = groups
  balanced : r.Balanced
  tells : ∀ w ∈ r.workers, w.TellsGroup

theorem reporting_start (c : Catalogue) (pages : Nat) (now : String → Instant) (limit : Instant)
    (groups : List String) (s : σ) :
    (Run.start (fun g => (importGroup c pages (now g) limit g).run) groups s).Reporting groups := by
  refine ⟨(List.map_map ..).trans (List.map_id groups), Run.balanced_start _ _ _, ?_⟩
  intro w hw
  obtain ⟨g, -, rfl⟩ := List.mem_map.mp hw
  exact importGroup_tellsGroup c pages (now g) limit g

theorem Run.Advances.reporting {r r' : Run σ} {groups : List String} (h : r.Advances r')
    (hr : r.Reporting groups) : r'.Reporting groups :=
  ⟨h.groups_eq.trans hr.groups_eq, h.balanced hr.balanced, h.tellsGroup hr.tells⟩

theorem Run.Reporting.of_reaches {r r' : Run σ} {groups : List String} (h : r.Reporting groups)
    (hr : Relation.ReflTransGen Run.Advances r r') : r'.Reporting groups := by
  induction hr with
  | refl => exact h
  | tail _ hstep ih => exact hstep.reporting ih

end Workers

section Join

theorem lookup_numbered (ws : List Worker) (i : Nat) :
    (Summary.numbered ws).lookup i = (ws[i]?).map (·.group) := by
  suffices h : ∀ k, ((ws.zipIdx k).map fun p => (p.2, p.1.group)).lookup (k + i) =
      (ws[i]?).map (·.group) by simpa [Summary.numbered] using h 0
  intro k
  induction ws generalizing k i with
  | nil => rfl
  | cons w ws ih =>
    rw [List.zipIdx_cons, List.map_cons, List.lookup_cons]
    cases i with
    | zero => simp
    | succ i =>
      have hne : (k + (i + 1) == k) = false := by simp
      rw [hne, List.getElem?_cons_succ, ← ih i (k + 1), Nat.add_right_comm]
      rfl

theorem lookup_filter_ne {groups : List (Nat × String)} {i j : Nat} (h : j ≠ i) :
    (groups.filter fun g => g.1 != i).lookup j = groups.lookup j := by
  induction groups with
  | nil => rfl
  | cons g groups ih =>
    rw [List.filter_cons]
    grind

/-- Workers with different numbers that come back are told apart, also those that broke off. -/
theorem join_eq (s : Summary) {groups : List (Nat × String)} (hn : order.Nodup)
    (ho : ∀ i ∈ order, ∃ w, ws[i]? = some w ∧ w.result?.isSome ∧
      groups.lookup i = some w.group) :
    s.join groups (order.filterMap fun i => (ws[i]?).bind (·.joined? i)) =
      ⟨s.succeeded ++ order.filterMap fun i => (ws[i]?).bind Worker.counts?,
        s.failed ++ order.filterMap fun i => (ws[i]?).bind Worker.failure?⟩ := by
  induction order generalizing s groups with
  | nil => simp [Summary.join]
  | cons i rest ih =>
    obtain ⟨hi, hn⟩ := List.nodup_cons.mp hn
    obtain ⟨⟨w, hw, hr, hg⟩, ho⟩ := List.forall_mem_cons.mp ho
    have hother : ∀ j ∈ rest, ∃ w, ws[j]? = some w ∧ w.result?.isSome ∧
        (groups.filter fun g => g.1 != i).lookup j = some w.group := by
      intro j hj
      obtain ⟨v, hv, hr, hg⟩ := ho j hj
      refine ⟨v, hv, hr, ?_⟩
      rw [lookup_filter_ne (ne_of_mem_of_not_mem hj hi), hg]
    obtain ⟨group, phase⟩ := w
    simp only [List.filterMap_cons, hw, Option.bind_some]
    match phase with
    | .finished (.done (.ok g)) =>
      change Summary.join ⟨s.succeeded ++ [g], s.failed⟩ groups _ =
        ⟨s.succeeded ++ g :: _, s.failed ++ _⟩
      rw [ih _ hn ho, List.append_assoc]
      rfl
    | .finished (.done (.error e)) =>
      change Summary.join ⟨s.succeeded, s.failed ++ [group]⟩ groups _ =
        ⟨s.succeeded ++ _, s.failed ++ group :: _⟩
      rw [ih _ hn ho, List.append_assoc]
      rfl
    | .finished .broken | .finished .exhausted =>
      change Summary.join ⟨s.succeeded, s.failed ++ [(groups.lookup i).getD ""]⟩ _ _ =
        ⟨s.succeeded ++ _, s.failed ++ group :: _⟩
      rw [ih _ hn hother, hg, List.append_assoc]
      rfl
    | .waiting _ | .working _ => cases hr

/-- Workers that have all finished come back in some order. -/
theorem ofWorkers_eq (hperm : order.Perm (List.range ws.length))
    (hf : ∀ w ∈ ws, w.result?.isSome) :
    Summary.ofWorkers ws order =
      ⟨order.filterMap fun i => (ws[i]?).bind Worker.counts?,
        order.filterMap fun i => (ws[i]?).bind Worker.failure?⟩ := by
  refine (join_eq {} (hperm.nodup_iff.mpr List.nodup_range) ?_).trans (by simp)
  intro i hi
  have hlt : i < ws.length := List.mem_range.mp (hperm.mem_iff.mp hi)
  refine ⟨ws[i], List.getElem?_eq_getElem hlt, hf _ (List.getElem_mem hlt), ?_⟩
  rw [lookup_numbered, List.getElem?_eq_getElem hlt, Option.map_some]

theorem filterMap_range (ws : List Worker) {β : Type} (f : Worker → Option β) :
    (List.range ws.length).filterMap (fun i => (ws[i]?).bind f) = ws.filterMap f := by
  induction ws with
  | nil => rfl
  | cons w ws ih =>
    rw [List.length_cons, List.range_succ_eq_map, List.filterMap_cons, List.filterMap_map,
      List.filterMap_cons]
    simp only [List.getElem?_cons_zero, Option.bind_some]
    cases f w with
    | none => exact ih
    | some b => exact congrArg (b :: ·) ih

/-- Either the counts of a worker or its name is reported. -/
theorem names_perm (h : ∀ w ∈ ws, ∀ g, w.counts? = some g → g.group = w.group) :
    ((ws.filterMap Worker.counts?).map (·.group) ++ ws.filterMap Worker.failure?).Perm
      (ws.map (·.group)) := by
  induction ws with
  | nil => exact .refl _
  | cons w ws ih =>
    obtain ⟨hw, hws⟩ := List.forall_mem_cons.mp h
    simp only [List.filterMap_cons, Worker.failure?, List.map_cons]
    cases hc : w.counts? with
    | none => exact List.perm_middle.trans ((ih hws).cons _)
    | some g =>
      rw [← hw g hc]
      exact (ih hws).cons _

/-- The names in a report are those of the workers, in whatever order they come back. -/
theorem reported_perm (hperm : order.Perm (List.range ws.length))
    (h : ∀ w ∈ ws, ∀ g, w.counts? = some g → g.group = w.group) :
    ((order.filterMap fun i => (ws[i]?).bind Worker.counts?).map (·.group) ++
      order.filterMap fun i => (ws[i]?).bind Worker.failure?).Perm (ws.map (·.group)) := by
  have hcounts := hperm.filterMap fun i => (ws[i]?).bind Worker.counts?
  have hfailures := hperm.filterMap fun i => (ws[i]?).bind Worker.failure?
  rw [filterMap_range] at hcounts hfailures
  exact ((hcounts.map (·.group)).append hfailures).trans (names_perm h)

end Join

/-- Whatever is replied to the workers, however they are interleaved and wherever they break off,
an import comes to an end with all workers finished. In whatever order they come back, the report
names the groups as often as they are configured, the counts that were returned as successes and
the groups of all other workers as failures. -/
theorem every_group_reported (c : Catalogue) (pages : Nat) (now : String → Instant)
    (limit : Instant) (groups : List String) (s : σ) :
    let r₀ := Run.start (fun g => (importGroup c pages (now g) limit g).run) groups s
    Acc (fun r' r : Run σ => r.Advances r') r₀ ∧
    ∀ r, Relation.ReflTransGen Run.Advances r₀ r → (∀ r', ¬ r.Advances r') →
      r.workers.map (·.group) = groups ∧ (∀ w ∈ r.workers, w.result?.isSome) ∧
      ∀ order : List Nat, order.Perm (List.range groups.length) →
        let report := Summary.ofWorkers r.workers order
        (report.succeeded.map (·.group) ++ report.failed).Perm groups ∧
        report.succeeded = order.filterMap (fun i => (r.workers[i]?).bind Worker.counts?) ∧
        report.failed = order.filterMap fun i => (r.workers[i]?).bind Worker.failure? := by
  intro r₀
  refine ⟨Run.acc_advances r₀, ?_⟩
  intro r hreach hstuck
  have hr : r.Reporting groups := (reporting_start c pages now limit groups s).of_reaches hreach
  have hfinished := Run.result?_isSome_of_stuck hr.balanced hstuck
  refine ⟨hr.groups_eq, hfinished, ?_⟩
  intro order hperm report
  rw [← hr.groups_eq, List.length_map] at hperm
  have hreport : report = _ := ofWorkers_eq hperm hfinished
  rw [hreport]
  refine ⟨?_, rfl, rfl⟩
  have hnames := reported_perm hperm fun w hw _ => (hr.tells w hw).counts
  rwa [hr.groups_eq] at hnames

section Sample

/-- A site that breaks off when group `b` is asked for. -/
def breakingSite : Source Unit := fun query arguments w =>
  if (arguments.get? "urlname").bind Json.string? = some "b" then (none, w)
  else listedSample query arguments w

def reportedStart : Run (Memory × Unit) :=
  .start (fun g => (importGroup sampleCatalogue 2 sampleNow (cutoff sampleNow) g).run)
    ["a", "b", "a"] (storedSample, ())

/-- Both imports of group `a` have read what is stored when the worker of group `b` breaks off. -/
def reportedEnd : Run (Memory × Unit) :=
  reportedStart.steps (answer breakingSite)
    ([0, 0, 2, 2] ++ List.replicate 4 1 ++ List.replicate 8 0 ++ List.replicate 4 2)

theorem every_group_reported_sample :
    let report := Summary.ofWorkers reportedEnd.workers [1, 2, 0]
    report.succeeded.map (·.group) = ["a", "a"] ∧ report.failed = ["b"] ∧
      (report.succeeded.map (·.group) ++ report.failed).Perm ["a", "b", "a"] := by
  have hreach : Relation.ReflTransGen Run.Advances reportedStart reportedEnd :=
    Run.advances_steps _ _ _
  have hstuck : ∀ r', ¬ reportedEnd.Advances r' :=
    Run.not_advances_of_finished (by decide +kernel)
  obtain ⟨-, hends⟩ := every_group_reported sampleCatalogue 2 (fun _ => sampleNow)
    (cutoff sampleNow) ["a", "b", "a"] (storedSample, ())
  obtain ⟨-, -, hreport⟩ := hends reportedEnd hreach hstuck
  exact ⟨by decide +kernel, by decide +kernel, (hreport [1, 2, 0] (by decide)).1⟩

end Sample

end Import

end GroupCalendar
