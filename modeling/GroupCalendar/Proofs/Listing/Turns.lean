import GroupCalendar.Proofs.Listing.Visits

/-! # Every caller comes to an end

Whoever has the token to itself ends its visit in some steps of its own, and then it is the turn of
the next one. So no schedule leads to a state from which the callers could not all end.
-/

namespace GroupCalendar.Listing

/-- A list counts fewer when one of those that count is replaced. -/
theorem countP_set_lt {α : Type} {p : α → Bool} {l : List α} {i : Nat} {x y : α}
    (hx : l[i]? = some x) (hp : p x) (hy : p y = false) : (l.set i y).countP p < l.countP p := by
  obtain ⟨hi, rfl⟩ := List.getElem?_eq_some_iff.mp hx
  have hpos : 0 < l.countP p := List.countP_pos_iff.mpr ⟨_, List.getElem_mem hi, hp⟩
  rw [List.countP_set hi, if_pos hp, hy, if_neg Bool.false_ne_true]
  omega

namespace Caller.Phase

def isFinished : Phase → Bool
  | .finished _ => true
  | _ => false

theorem isFinished_of_holds {phase : Phase} (h : phase.holds = true) :
    phase.isFinished = false := by
  cases phase with
  | holding | asking => rfl
  | waiting | finished => cases h

theorem eq_waiting {phase : Phase} (h : phase.holds = false) (hf : phase.isFinished = false) :
    phase = .waiting := by
  cases phase with
  | waiting => rfl
  | holding | asking => cases h
  | finished => cases hf

end Caller.Phase

namespace Sharing

variable {σ : Type} {a : Config.ListingAccess}
  {answer : Http.Post → σ → Option Http.Answer × σ} {s s' : Sharing σ} {i : Nat}

/-- All callers have ended. -/
def Ended (s : Sharing σ) : Prop :=
  ∀ phase ∈ s.callers, phase.isFinished = true

instance (s : Sharing σ) : Decidable s.Ended :=
  inferInstanceAs (Decidable (∀ phase ∈ s.callers, phase.isFinished = true))

theorem Ended.isHeld (h : s.Ended) : s.isHeld = false := by
  rw [Sharing.isHeld, List.any_eq_false]
  intro phase hmem
  match phase, h phase hmem with
  | .finished _, _ => exact Bool.false_ne_true

/-- Only callers take steps; the clock stands still. -/
def AtOneInstant (schedule : List Move) : Prop :=
  ∀ m ∈ schedule, ∃ i, m = .caller i

theorem AtOneInstant.append {schedule schedule' : List Move} (h : AtOneInstant schedule)
    (h' : AtOneInstant schedule') : AtOneInstant (schedule ++ schedule') := by
  intro m hm
  exact (List.mem_append.mp hm).elim (h m) (h' m)

theorem atOneInstant_inTurn (count : Nat) : AtOneInstant (inTurn count) := by
  intro m hm
  obtain ⟨i, -, hm⟩ := List.mem_flatMap.mp hm
  exact ⟨i, List.eq_of_mem_replicate hm⟩

@[simp]
theorem setPhase_setPhase (phase phase' : Caller.Phase) :
    (s.setPhase i phase).setPhase i phase' = s.setPhase i phase' := by
  simp [setPhase]

@[simp]
theorem release_setPhase (phase : Caller.Phase)
    (outcome : Outcome (Except TokenFetchError AccessToken)) :
    (s.setPhase i phase).release i outcome = s.release i outcome := by
  rw [release, setPhase_setPhase]
  rfl

/-- The exchanges of some work at an instant with a site. -/
theorem exists_answered (answer : Http.Post → σ → Option Http.Answer × σ) (now : Instant) (site : σ)
    (work : Holding) : ∃ xs outcome site', work.Plays xs outcome ∧ Answered answer site xs site' ∧
      AllAt now xs := by
  induction work generalizing site with
  | done x => exact ⟨[], _, site, .done, .nil site, allAt_nil⟩
  | broken => exact ⟨[], _, site, .broken, .nil site, allAt_nil⟩
  | exhausted => exact ⟨[], _, site, .exhausted, .nil site, allAt_nil⟩
  | ask r next ih =>
    cases r with
    | now =>
      obtain ⟨xs, outcome, site', hplays, hanswered, hat⟩ := ih now site
      exact ⟨_, outcome, site', plays_now.mpr ⟨now, xs, rfl, hplays⟩, .read now hanswered,
        allAt_reading.mpr ⟨rfl, hat⟩⟩
    | post p =>
      obtain ⟨xs, outcome, site', hplays, hanswered, hat⟩ :=
        ih (answer p site).1 (answer p site).2
      exact ⟨_, outcome, site', plays_post.mpr ⟨_, xs, rfl, hplays⟩, .sent p hanswered,
        allAt_message.mpr hat⟩

variable [HostNames]

theorem moves_append (schedule schedule' : List Move) (s : Sharing σ) :
    s.moves a answer (schedule ++ schedule') =
      (s.moves a answer schedule).moves a answer schedule' :=
  List.foldl_append

section Steps

variable {p : Http.Post}

theorem moves_succ (count : Nat) :
    s.moves a answer (List.replicate (count + 1) (.caller i)) =
      (s.step a answer i).moves a answer (List.replicate count (.caller i)) :=
  rfl

theorem step_of_waiting (h : s.callers[i]? = some .waiting) (hf : s.isHeld = false) :
    s.step a answer i = s.setPhase i (.holding (obtainToken a s.kept).run) := by
  rw [Sharing.step, h]
  simp [hf]

theorem step_of_look {next : Instant → Holding}
    (h : s.callers[i]? = some (.holding (.ask (S := Site.signature) .now next))) :
    s.step a answer i = s.setPhase i (.holding (next s.now)) := by
  rw [Sharing.step, h]

theorem step_of_send {next : Option Http.Answer → Holding}
    (h : s.callers[i]? = some (.holding (.ask (S := Site.signature) (.post p) next))) :
    s.step a answer i = s.setPhase i (.asking p next) := by
  rw [Sharing.step, h]

theorem step_of_asking {next : Option Http.Answer → Holding}
    (h : s.callers[i]? = some (.asking p next)) : s.step a answer i =
      { s.setPhase i (.holding (next (answer p s.site).1)) with site := (answer p s.site).2 } := by
  rw [Sharing.step, h]

theorem step_of_plays_nil {work : Holding} {outcome : Outcome (Except TokenFetchError AccessToken)}
    (h : s.callers[i]? = some (.holding work)) (hp : work.Plays [] outcome) :
    s.step a answer i = s.release i outcome := by
  rw [Sharing.step, h]
  cases hp with
  | @done x => cases x <;> rfl
  | broken | exhausted => rfl

end Steps

section Playing

variable {work : Holding} {xs : List (Exchange Site.signature)} {site : σ}
  {outcome : Outcome (Except TokenFetchError AccessToken)}

/-- While the clock stands still, a caller that has the token to itself makes the exchanges of its
work one after the other and ends. It takes a step for each exchange, one more for each message,
and a last one. -/
theorem moves_of_plays (h : s.callers[i]? = some (.holding work)) (hp : work.Plays xs outcome)
    (ha : Answered answer s.site xs site) (hx : AllAt s.now xs) :
    s.moves a answer (List.replicate (xs.length + (messages xs).length + 1) (.caller i)) =
      { s.release i outcome with site } := by
  generalize hs : s.site = start at ha
  induction ha generalizing s work with
  | nil start =>
    subst hs
    exact step_of_plays_nil h hp
  | @read _ xs _ t ha ih =>
    obtain ⟨next, rfl, hnext⟩ := hp.of_cons
    obtain ⟨rfl, hat⟩ := allAt_reading.mp hx
    have hholding : (s.setPhase i (.holding (next s.now))).callers[i]? =
        some (.holding (next s.now)) := getElem?_setPhase_self h
    have hrest := ih hholding hnext hat hs
    rw [messages_reading, List.length_cons, Nat.add_right_comm xs.length 1, moves_succ,
      step_of_look h, hrest, release_setPhase]
  | @sent _ xs site p ha ih =>
    obtain ⟨next, rfl, hnext⟩ := hp.of_cons
    subst hs
    have hasking : (s.setPhase i (.asking p next)).callers[i]? = some (.asking p next) :=
      getElem?_setPhase_self h
    let s' : Sharing σ :=
      { s.setPhase i (.holding (next (answer p s.site).1)) with site := (answer p s.site).2 }
    have hrest := ih (s := s') (getElem?_setPhase_self h) hnext (allAt_message.mp hx) rfl
    rw [messages_message, List.length_cons, List.length_cons, moves_succ, step_of_send h,
      Nat.add_right_comm xs.length 1, moves_succ, step_of_asking hasking, setPhase_setPhase]
    exact hrest.trans (congrArg (fun s : Sharing σ => { s with site }) (release_setPhase _ _))

theorem moves_of_finished {result : Outcome (Except TokenFetchError String)}
    (h : s.callers[i]? = some (.finished result)) (count : Nat) :
    s.moves a answer (List.replicate count (.caller i)) = s := by
  induction count with
  | zero => rfl
  | succ count ih =>
    rw [moves_succ, show s.step a answer i = s by rw [Sharing.step, h], ih]

/-- A caller for which nobody has the token makes its visit in as many steps or fewer. -/
theorem moves_of_waiting (h : s.callers[i]? = some .waiting) (hf : s.isHeld = false)
    (hp : (obtainToken a s.kept).run.Plays xs outcome) (ha : Answered answer s.site xs site)
    (hx : AllAt s.now xs) {count : Nat} (hc : xs.length + (messages xs).length + 2 ≤ count) :
    s.moves a answer (List.replicate count (.caller i)) = { s.release i outcome with site } := by
  obtain ⟨idle, rfl⟩ := Nat.exists_eq_add_of_le hc
  have hheld : (s.setPhase i (.holding (obtainToken a s.kept).run)).callers[i]? =
      some (.holding (obtainToken a s.kept).run) := getElem?_setPhase_self h
  rw [← List.replicate_append_replicate, moves_append, moves_succ, step_of_waiting h hf,
    moves_of_plays hheld hp ha hx, release_setPhase]
  exact moves_of_finished (s := { s.release i outcome with site }) (getElem?_setPhase_self h) idle

end Playing

/-- After some steps of caller `i` alone it has ended, and the others are as before. -/
def Turn (a : Config.ListingAccess) (answer : Http.Post → σ → Option Http.Answer × σ) (i : Nat)
    (s : Sharing σ) : Prop :=
  ∃ count result, (s.moves a answer (List.replicate count (.caller i))).callers =
    s.callers.set i (.finished result)

theorem Turn.of_step {phase : Caller.Phase} (h : Turn a answer i (s.step a answer i))
    (hs : (s.step a answer i).callers = s.callers.set i phase) : Turn a answer i s := by
  obtain ⟨count, result, hmoves⟩ := h
  refine ⟨count + 1, result, ?_⟩
  rw [List.replicate_succ]
  refine hmoves.trans ?_
  rw [hs, List.set_set]

theorem turn_of_holding {work : Holding} (h : s.callers[i]? = some (.holding work)) :
    Turn a answer i s := by
  obtain ⟨xs, outcome, site, hplays, hanswered, hat⟩ := exists_answered answer s.now s.site work
  exact ⟨_, _, congrArg callers (moves_of_plays h hplays hanswered hat)⟩

/-- A caller whose message is on its way goes on with the answer. -/
theorem turn_of_asking {p : Http.Post} {next : Option Http.Answer → Holding}
    (h : s.callers[i]? = some (.asking p next)) : Turn a answer i s := by
  have hheld : (s.step a answer i).callers[i]? =
      some (.holding (next (answer p s.site).1)) := by
    rw [step_of_asking h]
    exact getElem?_setPhase_self h
  exact .of_step (turn_of_holding hheld) (by rw [step_of_asking h]; rfl)

theorem turn_of_work {work : Holding} (h : s.work? i = some work) : Turn a answer i s := by
  obtain ⟨phase, hphase, hwork⟩ := exists_phase h
  match phase with
  | .holding work => exact turn_of_holding hphase
  | .asking p next => exact turn_of_asking hphase
  | .waiting | .finished _ => cases hwork

theorem turn_of_waiting (h : s.callers[i]? = some .waiting) (hf : s.isHeld = false) :
    Turn a answer i s := by
  have hentered : (s.step a answer i).callers[i]? =
      some (.holding (obtainToken a s.kept).run) := by
    rw [step_of_waiting h hf, getElem?_setPhase_self h]
  exact .of_step (turn_of_holding hentered) (by rw [step_of_waiting h hf]; rfl)

/-- Unless all have ended, some caller has its turn. -/
theorem exists_turn (h : ¬ s.Ended) :
    ∃ i phase, s.callers[i]? = some phase ∧ phase.isFinished = false ∧ Turn a answer i s := by
  cases hf : s.isHeld with
  | true =>
    obtain ⟨phase, hmem, hholds⟩ := List.any_eq_true.mp hf
    obtain ⟨i, hi⟩ := List.mem_iff_getElem?.mp hmem
    obtain ⟨work, hwork⟩ := Option.isSome_iff_exists.mp (phase.holds_eq ▸ hholds)
    have hi' : s.work? i = some work := by rw [work?, hi, Option.bind_some, hwork]
    exact ⟨i, phase, hi, Caller.Phase.isFinished_of_holds hholds, turn_of_work hi'⟩
  | false =>
    obtain ⟨phase, hunfinished⟩ := Classical.not_forall.mp h
    obtain ⟨hmem, hunfinished⟩ := Classical.not_imp.mp hunfinished
    rw [Bool.not_eq_true] at hunfinished
    obtain ⟨i, hi⟩ := List.mem_iff_getElem?.mp hmem
    have hholds : phase.holds = false := by
      rw [Sharing.isHeld, List.any_eq_false] at hf
      exact Bool.eq_false_iff.mpr (hf phase hmem)
    obtain rfl := Caller.Phase.eq_waiting hholds hunfinished
    exact ⟨i, .waiting, hi, rfl, turn_of_waiting hi hf⟩

/-- From every state the callers can all end while the clock stands still. -/
theorem exists_ended (a : Config.ListingAccess)
    (answer : Http.Post → σ → Option Http.Answer × σ) (s : Sharing σ) :
    ∃ schedule, AtOneInstant schedule ∧ (s.moves a answer schedule).Ended := by
  -- the callers that have not ended become fewer with each turn
  induction hn : s.callers.countP (!·.isFinished) using Nat.strongRecOn generalizing s with
  | _ n ih =>
    by_cases hs : s.Ended
    · exact ⟨[], fun m hm => (by cases hm), hs⟩
    · obtain ⟨i, phase, hi, hunfinished, hturn⟩ := exists_turn hs
      obtain ⟨count, result, hmoves⟩ : Turn a answer i s := hturn
      have hfewer : (s.moves a answer (List.replicate count (.caller i))).callers.countP
          (!·.isFinished) < n := by
        rw [hmoves, ← hn]
        exact countP_set_lt hi (by simp [hunfinished]) rfl
      obtain ⟨schedule, hschedule, hended⟩ := ih _ hfewer _ rfl
      refine ⟨List.replicate count (.caller i) ++ schedule, .append ?_ hschedule, ?_⟩
      · exact fun m hm => ⟨i, List.eq_of_mem_replicate hm⟩
      · rwa [moves_append]

end Sharing

end GroupCalendar.Listing
