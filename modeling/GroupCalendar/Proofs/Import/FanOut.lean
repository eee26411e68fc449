import GroupCalendar.Proofs.Import.Report
import GroupCalendar.Proofs.Program.Exchange

/-! # Bounded fan-out

Workers start when a permit is free, go on with any replies, and may break off anywhere. The
history of a run tells who did what: every worker goes once through the import of its group, and as
many workers have started and not ended as there are permits that are not free.
-/

namespace GroupCalendar

namespace Program

variable {S : Signature} {α : Type}

/-- What is left of a program after some exchanges. -/
inductive Leaves : Program S α → List (Exchange S) → Program S α → Prop
  | all {p} : Leaves p [] p
  | ask {r next reply xs rest} : Leaves (next reply) xs rest →
      Leaves (.ask r next) (⟨r, reply⟩ :: xs) rest

theorem Leaves.next {p : Program S α} {xs : List (Exchange S)} {r : S.Request}
    {next : S.Reply r → Program S α}
    (h : p.Leaves xs (.ask r next)) (reply : S.Reply r) :
    p.Leaves (xs ++ [⟨r, reply⟩]) (next reply) := by
  generalize hq : Program.ask r next = q at h
  induction h with
  | all =>
    subst hq
    exact .ask .all
  | ask _ ih => exact .ask (ih hq)

end Program

namespace Import

/-- What a worker does in a step of a run. -/
inductive Deed where
  | starts
  | exchanges (x : Exchange Service.signature)
  | ends (result : Result)

namespace Deed

def isStart : Deed → Bool
  | .starts => true
  | _ => false

def isEnd : Deed → Bool
  | .ends _ => true
  | _ => false

/-- The phase of a worker before and after what it does. -/
inductive Moves : Deed → Phase → Phase → Prop
  | starts {p} : Moves .starts (.waiting p) (.working p)
  | exchanges {q next} (x) : Moves (.exchanges ⟨q, x⟩) (.working (.ask q next)) (.working (next x))
  | ends {p result} : Ends p result → Moves (.ends result) (.working p) (.finished result)

end Deed

section Life

/-- What a worker with some work has done so far, and the phase in which it is. -/
inductive Life (p : Work) : List Deed → Phase → Prop
  | waiting : Life p [] (.waiting p)
  | working {xs rest} : p.Leaves xs rest → Life p (.starts :: xs.map .exchanges) (.working rest)
  | finished {xs rest result} : p.Leaves xs rest → Ends rest result →
      Life p (.starts :: xs.map .exchanges ++ [.ends result]) (.finished result)

variable {p : Work} {ds : List Deed} {d : Deed} {phase phase' : Phase}

/-- A worker goes through its work in order. -/
theorem Life.moves (h : Life p ds phase) (hm : d.Moves phase phase') :
    Life p (ds ++ [d]) phase' := by
  cases hm with
  | starts =>
    cases h with
    | waiting => exact .working .all
  | exchanges x =>
    cases h with
    | working hl =>
      have hnext := Life.working (hl.next x)
      rwa [List.map_append] at hnext
  | ends he =>
    cases h with
    | working hl => exact .finished hl he

theorem countP_exchanges (f : Deed → Bool) (hf : ∀ x, f (.exchanges x) = false)
    (xs : List (Exchange Service.signature)) : (xs.map Deed.exchanges).countP f = 0 := by
  simp [List.countP_eq_zero, hf]

/-- A worker starts once at most, and it has started once and ended once when it is finished. -/
theorem Life.counts (h : Life p ds phase) :
    ds.countP Deed.isStart ≤ 1 ∧
      ∀ result, phase = .finished result →
        ds.countP Deed.isStart = 1 ∧ ds.countP Deed.isEnd = 1 := by
  have hstarts := countP_exchanges Deed.isStart fun _ => rfl
  have hends := countP_exchanges Deed.isEnd fun _ => rfl
  cases h with
  | waiting => exact ⟨Nat.zero_le _, nofun⟩
  | working => exact ⟨by simp [List.countP_cons, hstarts, Deed.isStart], nofun⟩
  | finished =>
    constructor
    · simp [List.countP_cons, hstarts, Deed.isStart]
    · rintro _ -
      simp [List.countP_cons, hstarts, hends, Deed.isStart, Deed.isEnd]

end Life

namespace Run

variable {σ : Type}

/-- Worker `i` takes a permit, goes on with some reply, or ends. -/
inductive Goes : Run σ → Nat → Deed → Run σ → Prop
  | starts {r i group p} : r.workers[i]? = some ⟨group, .waiting p⟩ → r.free ≠ 0 →
      Goes r i .starts { r.setPhase i (.working p) with free := r.free - 1 }
  | exchanges {r i group q next} (x s) : r.workers[i]? = some ⟨group, .working (.ask q next)⟩ →
      Goes r i (.exchanges ⟨q, x⟩) { r.setPhase i (.working (next x)) with state := s }
  | ends {r i group p result} : r.workers[i]? = some ⟨group, .working p⟩ → Ends p result →
      Goes r i (.ends result) (r.finish i result)

/-- What the workers of a run have done since it began, in its order. -/
inductive History (r₀ : Run σ) : List (Nat × Deed) → Run σ → Prop
  | nil : History r₀ [] r₀
  | snoc {log r i d r'} : History r₀ log r → r.Goes i d r' → History r₀ (log ++ [(i, d)]) r'

variable {r r' r₀ : Run σ} {i : Nat} {d : Deed} {log : List (Nat × Deed)}

theorem advances_iff : r.Advances r' ↔ ∃ i d, r.Goes i d r' := by
  constructor
  · intro h
    cases h with
    | start hw hf => exact ⟨_, _, .starts hw hf⟩
    | reply x s hw => exact ⟨_, _, .exchanges x s hw⟩
    | finish hw he => exact ⟨_, _, .ends hw he⟩
  · rintro ⟨i, d, h⟩
    cases h with
    | starts hw hf => exact .start hw hf
    | exchanges x s hw => exact .reply x s hw
    | ends hw he => exact .finish hw he

/-- Whatever a run reaches has a history. -/
theorem exists_history (h : Relation.ReflTransGen Advances r₀ r) : ∃ log, r₀.History log r := by
  induction h with
  | refl => exact ⟨[], .nil⟩
  | tail _ ha ih =>
    obtain ⟨log, hlog⟩ := ih
    obtain ⟨i, d, hgoes⟩ := advances_iff.mp ha
    exact ⟨_, hlog.snoc hgoes⟩

/-- Of all workers only one goes on, and as its phase lets it. -/
theorem Goes.moves (h : r.Goes i d r') : ∃ group phase phase',
    r.workers[i]? = some ⟨group, phase⟩ ∧ d.Moves phase phase' ∧
      r'.workers = (r.setPhase i phase').workers := by
  cases h with
  | starts hw => exact ⟨_, _, _, hw, .starts, rfl⟩
  | exchanges x s hw => exact ⟨_, _, _, hw, .exchanges x, rfl⟩
  | ends hw he => exact ⟨_, _, _, hw, .ends he, rfl⟩

/-- How often workers have started, and how often they have ended. -/
def startCount (log : List (Nat × Deed)) : Nat := log.countP fun e => e.2.isStart

def endCount (log : List (Nat × Deed)) : Nat := log.countP fun e => e.2.isEnd

/-- What worker `i` has done. -/
def deedsOf (i : Nat) (log : List (Nat × Deed)) : List Deed :=
  log.filterMap fun e => if e.1 = i then some e.2 else none

theorem startCount_append :
    startCount (log ++ [(i, d)]) = startCount log + if d.isStart then 1 else 0 := by
  rw [startCount, List.countP_append, List.countP_singleton, startCount]

theorem endCount_append :
    endCount (log ++ [(i, d)]) = endCount log + if d.isEnd then 1 else 0 := by
  rw [endCount, List.countP_append, List.countP_singleton, endCount]

/-- Starts take permits, and ends give them back. -/
theorem Goes.permits (h : r.Goes i d r')
    (hp : startCount log + r.free = endCount log + maxConcurrent) :
    startCount (log ++ [(i, d)]) + r'.free = endCount (log ++ [(i, d)]) + maxConcurrent := by
  rw [startCount_append, endCount_append]
  cases h with
  | starts hw hf =>
    change startCount log + 1 + (r.free - 1) = endCount log + 0 + maxConcurrent
    omega
  | exchanges x s hw => exact hp
  | ends hw he =>
    change startCount log + 0 + (r.free + 1) = endCount log + 1 + maxConcurrent
    omega

theorem deedsOf_append (j : Nat) :
    deedsOf j (log ++ [(i, d)]) = deedsOf j log ++ if i = j then [d] else [] := by
  rw [deedsOf, List.filterMap_append]
  by_cases h : i = j <;> simp [h, deedsOf]

/-- Workers that wait to import the groups of some occurrences, each with the time at which its
clock is read. -/
def opening (c : Catalogue) (pages : Nat) (limit : Instant) (occurrences : List (String × Instant))
    (s : σ) : Run σ :=
  ⟨occurrences.map fun o => ⟨o.1, .waiting (importGroup c pages o.2 limit o.1).run⟩,
    maxConcurrent, s⟩

/-- An import begins with an opening, in which a group stands as often as it is configured. -/
theorem start_eq_opening (c : Catalogue) (pages : Nat) (limit : Instant) (now : String → Instant)
    (groups : List String) (s : σ) :
    Run.start (fun g => (importGroup c pages (now g) limit g).run) groups s =
      opening c pages limit (groups.map fun g => (g, now g)) s := by
  simp [start, opening]

/-- What a run keeps from its opening on. -/
structure FanOut (c : Catalogue) (pages : Nat) (limit : Instant)
    (occurrences : List (String × Instant)) (log : List (Nat × Deed)) (r : Run σ) : Prop where
  balanced : r.Balanced
  permits : startCount log + r.free = endCount log + maxConcurrent
  length_eq : r.workers.length = occurrences.length
  idle : ∀ i, occurrences.length ≤ i → deedsOf i log = []
  lives : ∀ i o, occurrences[i]? = some o → ∃ phase, r.workers[i]? = some ⟨o.1, phase⟩ ∧
    Life (importGroup c pages o.2 limit o.1).run (deedsOf i log) phase

variable {c : Catalogue} {pages : Nat} {limit : Instant} {occurrences : List (String × Instant)}

theorem fanOut_opening (c : Catalogue) (pages : Nat) (limit : Instant)
    (occurrences : List (String × Instant)) (s : σ) :
    FanOut c pages limit occurrences [] (opening c pages limit occurrences s) where
  balanced := by
    refine balanced_of_idle (fun w hw => ?_) rfl
    obtain ⟨o, -, rfl⟩ := List.mem_map.mp hw
    rfl
  permits := rfl
  length_eq := List.length_map _
  idle _ _ := rfl
  lives i o ho := by
    refine ⟨_, ?_, .waiting⟩
    rw [opening, List.getElem?_map, ho]
    rfl

theorem FanOut.goes (h : FanOut c pages limit occurrences log r) (hg : r.Goes i d r') :
    FanOut c pages limit occurrences (log ++ [(i, d)]) r' := by
  obtain ⟨group, phase, phase', hw, hm, hworkers⟩ := hg.moves
  have hi : i < occurrences.length := by
    rw [← h.length_eq]
    exact (List.getElem?_eq_some_iff.mp hw).1
  refine ⟨(advances_iff.mpr ⟨i, d, hg⟩).balanced h.balanced, hg.permits h.permits, ?_, ?_, ?_⟩
  · rw [hworkers, setPhase, List.length_modify, h.length_eq]
  · intro j hj
    rw [deedsOf_append, h.idle j hj, if_neg (by omega)]
    rfl
  · intro j o ho
    obtain ⟨before, hbefore, hlife⟩ := h.lives j o ho
    rw [deedsOf_append, hworkers, getElem?_setPhase, hbefore]
    by_cases hij : i = j
    · subst hij
      cases hw.symm.trans hbefore
      rw [if_pos rfl]
      exact ⟨phase', by simp, hlife.moves hm⟩
    · rw [if_neg hij, List.append_nil]
      exact ⟨before, by simp [hij], hlife⟩

theorem FanOut.of_history (h : r₀.History log r) (h₀ : FanOut c pages limit occurrences [] r₀) :
    FanOut c pages limit occurrences log r := by
  induction h with
  | nil => exact h₀
  | snoc _ hg ih => exact ih.goes hg

/-- Where a run cannot go on, every occurrence has started once and ended once. -/
theorem FanOut.counts_of_stuck (h : FanOut c pages limit occurrences log r)
    (hs : ∀ r', ¬ r.Advances r') (hi : i < occurrences.length) :
    (deedsOf i log).countP Deed.isStart = 1 ∧ (deedsOf i log).countP Deed.isEnd = 1 := by
  obtain ⟨phase, hw, hlife⟩ := h.lives i _ (List.getElem?_eq_getElem hi)
  have hfinished := result?_isSome_of_stuck h.balanced hs _ (List.mem_of_getElem? hw)
  cases phase with
  | finished result => exact hlife.counts.2 result rfl
  | waiting p | working p => cases hfinished

end Run

open Run

variable {σ : Type}

/-- Whatever is replied to the workers, however they are interleaved and wherever they break off:
at most so many workers hold a permit as there are permits, the others are free, and nobody goes
twice through the import of an occurrence. An import comes to an end, and then everybody has gone
through it once. -/
theorem bounded_fan_out (c : Catalogue) (pages : Nat) (limit : Instant)
    (occurrences : List (String × Instant)) (s : σ) :
    let r₀ := Run.opening c pages limit occurrences s
    (∀ handle schedule, ∃ log, r₀.History log (r₀.steps handle schedule)) ∧
    (∀ log r, r₀.History log r →
      (r.busy ≤ maxConcurrent ∧ r.free + r.busy = maxConcurrent ∧
        startCount log = endCount log + r.busy) ∧
      (∀ i o, occurrences[i]? = some o → ∃ phase, r.workers[i]? = some ⟨o.1, phase⟩ ∧
        Life (importGroup c pages o.2 limit o.1).run (deedsOf i log) phase ∧
        (deedsOf i log).countP Deed.isStart ≤ 1) ∧
      (∀ i, occurrences.length ≤ i → deedsOf i log = []) ∧
      ((∀ r', ¬ r.Advances r') → ∀ i < occurrences.length,
        (deedsOf i log).countP Deed.isStart = 1 ∧ (deedsOf i log).countP Deed.isEnd = 1)) ∧
    Acc (fun r' r : Run σ => r.Advances r') r₀ := by
  intro r₀
  refine ⟨fun handle schedule => exists_history (advances_steps handle r₀ schedule), ?_,
    acc_advances r₀⟩
  intro log r hlog
  have h : FanOut c pages limit occurrences log r :=
    .of_history hlog (fanOut_opening c pages limit occurrences s)
  have hbalanced : r.free + r.busy = maxConcurrent := h.balanced
  have hpermits := h.permits
  refine ⟨⟨by omega, hbalanced, by omega⟩, ?_, h.idle, fun hs i hi => h.counts_of_stuck hs hi⟩
  intro i o ho
  obtain ⟨phase, hw, hlife⟩ := h.lives i o ho
  exact ⟨phase, hw, hlife, hlife.counts.1⟩

section Sample

open Store Service

/-- Four occurrences, three of them of one group. -/
def crowdedStart : Run (Memory × Unit) :=
  .start (fun g => (importGroup sampleCatalogue 2 sampleNow (cutoff sampleNow) g).run)
    ["a", "b", "a", "a"] (storedSample, ())

/-- All have tried to start, and the last one waits. -/
def crowded : Run (Memory × Unit) :=
  crowdedStart.steps (answer breakingSite) [0, 1, 2, 3]

/-- The worker of group `b` breaks off, and its permit passes to the last one. -/
def crowdedSchedule : List Nat :=
  [0, 2] ++ List.replicate 3 1 ++ List.replicate 10 3 ++ List.replicate 8 0 ++ List.replicate 8 2

def crowdedEnd : Run (Memory × Unit) :=
  crowded.steps (answer breakingSite) crowdedSchedule

theorem bounded_fan_out_crowded :
    crowded.busy = 3 ∧ crowded.free = 0 ∧
      (∃ log, crowdedStart.History log crowded ∧ startCount log = endCount log + 3) ∧
      ∃ log, crowdedStart.History log crowdedEnd ∧
        ∀ i < 4, (deedsOf i log).countP Deed.isStart = 1 := by
  obtain ⟨hsteps, hall, -⟩ := bounded_fan_out sampleCatalogue 2 (cutoff sampleNow)
    (["a", "b", "a", "a"].map fun g => (g, sampleNow)) (storedSample, ())
  rw [← start_eq_opening] at hsteps hall
  have hbusy : crowded.busy = 3 := by decide +kernel
  have hfree : crowded.free = 0 := by decide +kernel
  obtain ⟨log, hlog⟩ := hsteps (answer breakingSite) [0, 1, 2, 3]
  obtain ⟨⟨-, -, hcount⟩, -⟩ := hall log crowded hlog
  obtain ⟨log', hlog'⟩ := hsteps (answer breakingSite) ([0, 1, 2, 3] ++ crowdedSchedule)
  rw [steps_append] at hlog'
  obtain ⟨-, -, -, hstuck⟩ := hall log' crowdedEnd hlog'
  have hfinished : ∀ r', ¬ crowdedEnd.Advances r' := not_advances_of_finished (by decide +kernel)
  exact ⟨hbusy, hfree, ⟨log, hlog, by rw [hcount, hbusy]⟩, log', hlog', fun i hi =>
    (hstuck hfinished i hi).1⟩

end Sample

end Import

end GroupCalendar
