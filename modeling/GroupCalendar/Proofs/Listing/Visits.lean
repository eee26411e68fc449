import GroupCalendar.Listing.Sharing
import GroupCalendar.Proofs.Listing.Fetch

/-! # Visits to the shared token

Callers have the token one after the other. Whatever the order of their steps, what they exchange
with the clock and with the site falls into visits that follow one another: each finds the token
that the one before left, and is a course of its own from there.
-/

namespace GroupCalendar.Listing

/-- How a caller ends whose work ends so. -/
def resultOf :
    Outcome (Except TokenFetchError AccessToken) → Outcome (Except TokenFetchError String)
  | .done x => .done (x.map (·.text))
  | .broken => .broken
  | .exhausted => .exhausted

/-- The token that stays behind: the new one, or else the one that was found. -/
def tokenAfter (found : Option AccessToken) :
    Outcome (Except TokenFetchError AccessToken) → Option AccessToken
  | .done (.ok token) => some token
  | _ => found

section Results

variable {found : Option AccessToken} {outcome : Outcome (Except TokenFetchError AccessToken)}

theorem exists_tokenAfter {text : String} (h : resultOf outcome = .done (.ok text)) :
    ∃ token : AccessToken, tokenAfter found outcome = some token ∧ token.text = text := by
  match outcome with
  | .done (.ok token) =>
    cases h
    exact ⟨token, rfl, rfl⟩
  | .done (.error _) | .broken | .exhausted => cases h

theorem tokenAfter_of_error {e : TokenFetchError} (h : resultOf outcome = .done (.error e)) :
    tokenAfter found outcome = found := by
  match outcome with
  | .done (.ok _) => cases h
  | .done (.error _) | .broken | .exhausted => rfl

end Results

/-- What a caller did while it had the token to itself. -/
structure Visit where
  caller : Nat
  found : Option AccessToken
  exchanges : List (Exchange Site.signature)
  outcome : Outcome (Except TokenFetchError AccessToken)

namespace Visit

def left (v : Visit) : Option AccessToken := tokenAfter v.found v.outcome

def result (v : Visit) : Outcome (Except TokenFetchError String) := resultOf v.outcome

def entries (v : Visit) : List (Nat × Exchange Site.signature) := v.exchanges.map (v.caller, ·)

end Visit

/-- Visits each of which finds what the one before left, from the first token to the last. -/
inductive Succession : Option AccessToken → List Visit → Option AccessToken → Prop
  | nil (kept) : Succession kept [] kept
  | cons {v visits kept} (h : Succession v.left visits kept) : Succession v.found (v :: visits) kept

theorem Succession.of_nil {kept kept' : Option AccessToken} (h : Succession kept [] kept') :
    kept' = kept := by
  cases h
  rfl

theorem Succession.of_cons {kept kept' : Option AccessToken} {visits : List Visit} {v : Visit}
    (h : Succession kept (v :: visits) kept') :
    v.found = kept ∧ Succession v.left visits kept' := by
  cases h with
  | cons h => exact ⟨rfl, h⟩

theorem Succession.concat {kept kept' : Option AccessToken} {visits : List Visit} {v : Visit}
    (h : Succession kept visits kept') (hv : v.found = kept') :
    Succession kept (visits ++ [v]) v.left := by
  induction h with
  | nil kept => exact hv ▸ .cons (.nil _)
  | cons h ih => exact .cons (ih hv)

/-- The site answers the messages in their order; the clock is not its business. -/
inductive Answered {σ : Type} (answer : Http.Post → σ → Option Http.Answer × σ) :
    σ → List (Exchange Site.signature) → σ → Prop
  | nil (site) : Answered answer site [] site
  | read {site xs site'} (now : Instant) (h : Answered answer site xs site') :
    Answered answer site (reading now :: xs) site'
  | sent {site xs site'} (p : Http.Post) (h : Answered answer (answer p site).2 xs site') :
    Answered answer site (message p (answer p site).1 :: xs) site'

theorem Answered.append {σ : Type} {answer : Http.Post → σ → Option Http.Answer × σ}
    {site site' site'' : σ} {xs ys : List (Exchange Site.signature)}
    (h : Answered answer site xs site') (h' : Answered answer site' ys site'') :
    Answered answer site (xs ++ ys) site'' := by
  induction h with
  | nil => exact h'
  | read now _ ih => exact .read now (ih h')
  | sent p _ ih => exact .sent p (ih h')

namespace Caller.Phase

/-- What is left to do of a caller that has the token to itself. -/
def work? : Phase → Option Holding
  | .holding work => some work
  | .asking p next => some (.ask (S := Site.signature) (.post p) next)
  | .waiting | .finished _ => none

theorem holds_eq (phase : Phase) : phase.holds = phase.work?.isSome := by
  cases phase <;> rfl

end Caller.Phase

namespace Sharing

open Caller

variable {σ : Type} {a : Config.ListingAccess}
  {answer : Http.Post → σ → Option Http.Answer × σ} {s : Sharing σ} {i : Nat}

/-- What caller `i` still has to do while it has the token to itself. -/
def work? (s : Sharing σ) (i : Nat) : Option Holding :=
  s.callers[i]?.bind (·.work?)

/-- Caller `i` ends its visit. -/
def release (s : Sharing σ) (i : Nat) (outcome : Outcome (Except TokenFetchError AccessToken)) :
    Sharing σ :=
  { s.setPhase i (.finished (resultOf outcome)) with kept := tokenAfter s.kept outcome }

section Phases

variable {phase old : Caller.Phase} {work : Holding} {j : Nat}

theorem getElem?_setPhase_self (h : s.callers[i]? = some old) :
    (s.setPhase i phase).callers[i]? = some phase :=
  List.getElem?_set_self (List.getElem?_eq_some_iff.mp h).1

theorem getElem?_setPhase_of_ne (h : i ≠ j) :
    (s.setPhase i phase).callers[j]? = s.callers[j]? :=
  List.getElem?_set_ne h

theorem exists_phase (h : s.work? i = some work) :
    ∃ phase, s.callers[i]? = some phase ∧ phase.work? = some work :=
  Option.bind_eq_some_iff.mp h

theorem isHeld_of_work? (h : s.work? i = some work) : s.isHeld = true := by
  obtain ⟨phase, hphase, hwork⟩ := exists_phase h
  refine List.any_eq_true.mpr ⟨phase, List.mem_of_getElem? hphase, ?_⟩
  rw [phase.holds_eq, hwork, Option.isSome_some]

theorem work?_setPhase_self (h : s.callers[i]? = some old) :
    (s.setPhase i phase).work? i = phase.work? := by
  rw [work?, getElem?_setPhase_self h, Option.bind_some]

theorem work?_setPhase_of_ne (h : i ≠ j) : (s.setPhase i phase).work? j = s.work? j := by
  rw [work?, getElem?_setPhase_of_ne h, work?]

theorem work?_ne_finished (h : phase.work? = some work)
    (result : Outcome (Except TokenFetchError String)) : phase ≠ .finished result := by
  rintro rfl
  cases h

/-- The callers that have ended stay the same while another one goes on. -/
theorem finished_setPhase_iff (hi : s.callers[i]? = some old)
    (hold : ∀ result, old ≠ .finished result) (hnew : ∀ result, phase ≠ .finished result)
    (j : Nat) (result : Outcome (Except TokenFetchError String)) :
    (s.setPhase i phase).callers[j]? = some (.finished result) ↔
      s.callers[j]? = some (.finished result) := by
  by_cases hij : i = j
  · subst hij
    rw [getElem?_setPhase_self hi, hi]
    simp [hold, hnew]
  · rw [getElem?_setPhase_of_ne hij]

end Phases

variable [HostNames]

/-- What caller `i` exchanges when it takes the next step. -/
def exchange? (answer : Http.Post → σ → Option Http.Answer × σ) (i : Nat) (s : Sharing σ) :
    Option (Exchange Site.signature) :=
  match s.callers[i]? with
  | some (.holding (.ask .now _)) => some (reading s.now)
  | some (.asking p _) => some (message p (answer p s.site).1)
  | _ => none

/-- What is exchanged in the moves of a schedule, and by whom. -/
def exchanges (a : Config.ListingAccess) (answer : Http.Post → σ → Option Http.Answer × σ) :
    List Move → Sharing σ → List (Nat × Exchange Site.signature)
  | [], _ => []
  | .clock now :: schedule, s => exchanges a answer schedule { s with now }
  | .caller i :: schedule, s =>
    (s.exchange? answer i).toList.map (i, ·) ++ exchanges a answer schedule (s.step a answer i)

/-- The kinds of steps that caller `i` takes, with what is exchanged in them. -/
inductive Step (a : Config.ListingAccess) (answer : Http.Post → σ → Option Http.Answer × σ)
    (i : Nat) (s : Sharing σ) : List (Exchange Site.signature) → Sharing σ → Prop
  | idle (h : s.work? i = none) : Step a answer i s [] s
  | enter (hw : s.callers[i]? = some .waiting) (hf : s.isHeld = false) :
    Step a answer i s [] (s.setPhase i (.holding (obtainToken a s.kept).run))
  | proceed {work phase work' xs site} (hw : s.work? i = some work)
    (hp : phase.work? = some work')
    (hplays : ∀ rest outcome, work'.Plays rest outcome → work.Plays (xs ++ rest) outcome)
    (hsite : Answered answer s.site xs site) :
    Step a answer i s xs { s.setPhase i phase with site := site }
  | leave {work outcome} (hw : s.work? i = some work) (ho : work.Plays [] outcome) :
    Step a answer i s [] (s.release i outcome)

theorem step_kind (a : Config.ListingAccess) (answer : Http.Post → σ → Option Http.Answer × σ)
    (s : Sharing σ) (i : Nat) :
    Step a answer i s (s.exchange? answer i).toList (s.step a answer i) := by
  have hwork {phase : Caller.Phase} (hp : s.callers[i]? = some phase) :
      s.work? i = phase.work? := by
    rw [work?, hp, Option.bind_some]
  unfold Sharing.step exchange?
  cases hp : s.callers[i]? with
  | none => exact .idle (by rw [work?, hp, Option.bind_none])
  | some phase =>
    match phase with
    | .waiting =>
      cases hf : s.isHeld with
      | true => exact .idle (hwork hp)
      | false => exact .enter hp hf
    | .holding (.done (.ok token)) => exact .leave (hwork hp) .done
    | .holding (.done (.error e)) => exact .leave (hwork hp) .done
    | .holding .broken => exact .leave (hwork hp) .broken
    | .holding .exhausted => exact .leave (hwork hp) .exhausted
    | .holding (.ask .now next) =>
      refine .proceed (hwork hp) rfl (fun rest outcome h => ?_) (.read _ (.nil _))
      exact plays_now.mpr ⟨_, _, rfl, h⟩
    | .holding (.ask (.post p) next) =>
      exact .proceed (hwork hp) rfl (fun rest outcome h => h) (.nil _)
    | .asking p next =>
      refine .proceed (hwork hp) rfl (fun rest outcome h => ?_) (.sent p (.nil _))
      exact plays_post.mpr ⟨_, _, rfl, h⟩
    | .finished result => exact .idle (hwork hp)

theorem Step.now_eq {xs : List (Exchange Site.signature)} {s' : Sharing σ}
    (h : Step a answer i s xs s') : s'.now = s.now := by
  cases h <;> rfl

theorem Step.length_eq {xs : List (Exchange Site.signature)} {s' : Sharing σ}
    (h : Step a answer i s xs s') : s'.callers.length = s.callers.length := by
  cases h with
  | idle => rfl
  | enter | proceed | leave => exact List.length_set

theorem length_moves (schedule : List Move) (s : Sharing σ) :
    (s.moves a answer schedule).callers.length = s.callers.length := by
  induction schedule generalizing s with
  | nil => rfl
  | cons m schedule ih =>
    refine (ih _).trans ?_
    cases m with
    | clock now => rfl
    | caller i => exact (step_kind a answer s i).length_eq

/-- The account of a run: visits that are over, and one that is not. -/
structure Account (a : Config.ListingAccess) (answer : Http.Post → σ → Option Http.Answer × σ)
    (kept : Option AccessToken) (site : σ) (log : List (Nat × Exchange Site.signature))
    (s : Sharing σ) (visits : List Visit)
    (current : Option (Nat × List (Exchange Site.signature))) : Prop where
  /-- Each visit finds what the one before left, and the last one left what is kept now. -/
  succession : Succession kept visits s.kept
  course : ∀ v ∈ visits, Course a v.found v.exchanges v.outcome
  /-- The callers that have ended are those with a visit, and they end as it does. -/
  ended : ∀ i result, s.callers[i]? = some (.finished result) ↔
    ∃ v ∈ visits, v.caller = i ∧ v.result = result
  once : (visits.map (·.caller)).Nodup
  /-- The exchanges of different visits do not mix. -/
  log_eq : log = visits.flatMap (·.entries) ++
    current.toList.flatMap fun x => x.2.map (x.1, ·)
  answered : Answered answer site (log.map (·.2)) s.site
  /-- Whoever has the token to itself has begun a course from the token that is kept. -/
  begun : ∀ i work, s.work? i = some work → ∃ xs, current = some (i, xs) ∧
    ∀ rest outcome, work.Plays rest outcome → Course a s.kept (xs ++ rest) outcome
  present : ∀ i xs, current = some (i, xs) → (s.work? i).isSome

namespace Account

variable {kept : Option AccessToken} {site : σ} {log : List (Nat × Exchange Site.signature)}
  {visits : List Visit} {current : Option (Nat × List (Exchange Site.signature))}

theorem start (a : Config.ListingAccess) (answer : Http.Post → σ → Option Http.Answer × σ)
    (count : Nat) (kept : Option AccessToken) (now : Instant) (site : σ) :
    Account a answer kept site [] (Sharing.start count kept now site) [] none where
  succession := .nil kept
  course := List.forall_mem_nil _
  ended i result := by simp [Sharing.start, List.getElem?_replicate]
  once := List.nodup_nil
  log_eq := rfl
  answered := .nil site
  begun i work h := by
    obtain ⟨phase, hphase, hwork⟩ := exists_phase h
    obtain rfl : phase = .waiting := List.eq_of_mem_replicate (List.mem_of_getElem? hphase)
    cases hwork
  present i xs h := by cases h

theorem current_eq_none (h : Account a answer kept site log s visits current)
    (hf : s.isHeld = false) : current = none := by
  rw [Option.eq_none_iff_forall_ne_some]
  rintro ⟨i, xs⟩ hc
  obtain ⟨work, hwork⟩ := Option.isSome_iff_exists.mp (h.present i xs hc)
  simp [isHeld_of_work? hwork] at hf

/-- One caller at most has the token to itself. -/
theorem holder_unique (h : Account a answer kept site log s visits current) {i j : Nat}
    {work work' : Holding} (hi : s.work? i = some work) (hj : s.work? j = some work') : i = j := by
  obtain ⟨xs, hxs, -⟩ := h.begun i work hi
  obtain ⟨ys, hys, -⟩ := h.begun j work' hj
  cases hxs.symm.trans hys
  rfl

/-- A caller that has work to do has not made a visit that is over. -/
theorem caller_ne (h : Account a answer kept site log s visits current) {work : Holding}
    (hw : s.work? i = some work) : ∀ v ∈ visits, v.caller ≠ i := by
  rintro v hv rfl
  obtain ⟨phase, hphase, hwork⟩ := exists_phase hw
  have hended := (h.ended v.caller v.result).mpr ⟨v, hv, rfl, rfl⟩
  exact work?_ne_finished hwork v.result (Option.some.inj (hphase.symm.trans hended))

theorem enter (h : Account a answer kept site log s visits current)
    (hw : s.callers[i]? = some .waiting) (hf : s.isHeld = false) :
    Account a answer kept site log (s.setPhase i (.holding (obtainToken a s.kept).run)) visits
      (some (i, [])) := by
  obtain rfl := h.current_eq_none hf
  refine { h with ended := ?_, log_eq := ?_, begun := ?_, present := ?_ }
  · intro j result
    exact (finished_setPhase_iff hw (fun _ => Caller.Phase.noConfusion)
      (fun _ => Caller.Phase.noConfusion) j result).trans (h.ended j result)
  · simpa using h.log_eq
  · intro j work hj
    by_cases hij : i = j
    · subst hij
      rw [work?_setPhase_self hw] at hj
      obtain rfl := Option.some.inj hj
      exact ⟨[], rfl, fun rest outcome hplays => course_of_plays hplays⟩
    · rw [work?_setPhase_of_ne hij] at hj
      simp [isHeld_of_work? hj] at hf
  · rintro j xs ⟨⟩
    rw [work?_setPhase_self hw]
    rfl

theorem proceed (h : Account a answer kept site log s visits current) {phase : Caller.Phase}
    {work work' : Holding} {xs : List (Exchange Site.signature)} {site' : σ}
    (hw : s.work? i = some work) (hp : phase.work? = some work')
    (hplays : ∀ rest outcome, work'.Plays rest outcome → work.Plays (xs ++ rest) outcome)
    (hsite : Answered answer s.site xs site') :
    ∃ current', Account a answer kept site (log ++ xs.map (i, ·))
      { s.setPhase i phase with site := site' } visits current' := by
  obtain ⟨ys, rfl, hcourse⟩ := h.begun i work hw
  obtain ⟨old, hold, hwork⟩ := exists_phase hw
  refine ⟨some (i, ys ++ xs), { h with
    ended := ?_, log_eq := ?_, answered := ?_, begun := ?_, present := ?_ }⟩
  · intro j result
    exact (finished_setPhase_iff hold (work?_ne_finished hwork) (work?_ne_finished hp) j
      result).trans (h.ended j result)
  · simp [h.log_eq]
  · rw [List.map_append, List.map_map]
    exact h.answered.append (by simpa [Function.comp_def] using hsite)
  · intro j work'' hj
    by_cases hij : i = j
    · subst hij
      obtain rfl : work' = work'' :=
        Option.some.inj (hp.symm.trans ((work?_setPhase_self hold).symm.trans hj))
      refine ⟨_, rfl, fun rest outcome hrest => ?_⟩
      rw [List.append_assoc]
      exact hcourse _ _ (hplays rest outcome hrest)
    · exact absurd (h.holder_unique hw ((work?_setPhase_of_ne hij).symm.trans hj)) hij
  · rintro j zs ⟨⟩
    exact Option.isSome_of_eq_some ((work?_setPhase_self hold).trans hp)

theorem leave (h : Account a answer kept site log s visits current) {work : Holding}
    {outcome : Outcome (Except TokenFetchError AccessToken)} (hw : s.work? i = some work)
    (ho : work.Plays [] outcome) :
    ∃ v, Account a answer kept site log (s.release i outcome) (visits ++ [v]) none := by
  obtain ⟨ys, rfl, hcourse⟩ := h.begun i work hw
  obtain ⟨old, hold, hwork⟩ := exists_phase hw
  have hothers := h.caller_ne hw
  let v : Visit := ⟨i, s.kept, ys, outcome⟩
  refine ⟨v, ?_, ?_, ?_, ?_, ?_, h.answered, ?_, ?_⟩
  · exact h.succession.concat rfl
  · rw [List.forall_mem_append, List.forall_mem_singleton]
    refine ⟨h.course, ?_⟩
    simpa using hcourse [] outcome ho
  · intro j result
    change (s.setPhase i _).callers[j]? = _ ↔ _
    simp only [List.mem_append, List.mem_singleton, or_and_right, exists_or, exists_eq_left]
    by_cases hij : i = j
    · subst hij
      rw [getElem?_setPhase_self hold]
      constructor
      · rintro ⟨⟩
        exact .inr ⟨rfl, rfl⟩
      · rintro (⟨w, hw, hcaller, -⟩ | ⟨-, rfl⟩)
        · exact absurd hcaller (hothers w hw)
        · rfl
    · rw [getElem?_setPhase_of_ne hij, h.ended j result]
      exact ⟨.inl, fun h => h.resolve_right fun hv => hij hv.1⟩
  · rw [List.map_append, List.nodup_append]
    refine ⟨h.once, by simp, fun j hj k hk hjk => ?_⟩
    obtain ⟨w, hw, rfl⟩ := List.mem_map.mp hj
    exact hothers w hw (hjk.trans (List.mem_singleton.mp hk))
  · simp [h.log_eq, Visit.entries, v]
  · intro j work' hj
    by_cases hij : i = j
    · subst hij
      exact absurd ((work?_setPhase_self hold).symm.trans hj) (by simp [Caller.Phase.work?])
    · exact absurd (h.holder_unique hw ((work?_setPhase_of_ne hij).symm.trans hj)) hij
  · intro j xs hc
    cases hc

theorem step (h : Account a answer kept site log s visits current)
    {xs : List (Exchange Site.signature)} {s' : Sharing σ} (hs : Step a answer i s xs s') :
    ∃ visits' current', Account a answer kept site (log ++ xs.map (i, ·)) s' visits' current' := by
  cases hs with
  | idle => exact ⟨_, _, by simpa using h⟩
  | enter hw hf => exact ⟨_, _, by simpa using h.enter hw hf⟩
  | proceed hw hp hplays hsite => exact ⟨_, h.proceed hw hp hplays hsite⟩
  | leave hw ho =>
    obtain ⟨v, hv⟩ := h.leave hw ho
    exact ⟨_, _, by simpa using hv⟩

theorem moves (h : Account a answer kept site log s visits current) (schedule : List Move) :
    ∃ visits' current', Account a answer kept site (log ++ s.exchanges a answer schedule)
      (s.moves a answer schedule) visits' current' := by
  induction schedule generalizing s log visits current with
  | nil => exact ⟨_, _, by simpa [exchanges, Sharing.moves] using h⟩
  | cons m schedule ih =>
    cases m with
    | clock now =>
      have hclock : Account a answer kept site log { s with now } visits current := { h with }
      exact ih hclock
    | caller i =>
      obtain ⟨visits', current', hstep⟩ := h.step (step_kind a answer s i)
      rw [exchanges, ← List.append_assoc]
      exact ih hstep

end Account

end Sharing

end GroupCalendar.Listing
