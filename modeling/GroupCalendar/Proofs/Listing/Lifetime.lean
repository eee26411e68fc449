import GroupCalendar.Proofs.Listing.Margin

/-! # Tokens near the ends of the calendar

A grant whose time ends outside of the calendar is refused. One that ends in it is accepted, also
where the margin before its end is not in the calendar any more. Nobody can look at such a token,
at any instant, and since it is looked at before a new one is got, it stays for good.
-/

namespace GroupCalendar.Listing

open Http

section Time

variable {token : AccessToken} {now : Instant}

/-- The time of a grant ends in the calendar, but by less than the margin after its start. -/
def Grant.EndsEarly (g : Grant) (now : Instant) : Prop :=
  Instant.InCalendar (now.secondAfter g.seconds) ∧
    now.secondAfter g.seconds < Instant.firstSecond + marginSeconds

/-- Only negative seconds lead back to the start of the calendar, unless it is just beginning. -/
theorem Grant.EndsEarly.negative {g : Grant} (h : g.EndsEarly now) :
    g.seconds < 0 ∨ now.seconds < Instant.firstSecond + marginSeconds := by
  have hlt := h.2
  unfold Instant.secondAfter at hlt
  split at hlt
  · next hback => exact .inl hback.2
  · omega

end Time

section Exchanges

variable {a : Config.ListingAccess} {kept : Option AccessToken}
  {xs : List (Exchange Site.signature)} {outcome : Outcome (Except TokenFetchError AccessToken)}
  {p : Post} {reply : Http.Answer} {g : Grant}

@[simp]
theorem message_ne_reading {now : Instant} {reply : Option Http.Answer} :
    message p reply ≠ reading now :=
  reading_ne_message.symm

variable [HostNames]

end Exchanges

section Blocking

variable [HostNames] {σ : Type} {a : Config.ListingAccess} {token : AccessToken} {s : Sharing σ}

/-- How far callers come that find a token at which nobody can look. -/
inductive Caller.Phase.Blocked (a : Config.ListingAccess) (token : AccessToken) :
    Caller.Phase → Prop
  | waiting : Blocked a token .waiting
  | looking : Blocked a token (.holding (obtainToken a (some token)).run)
  | breaking : Blocked a token (.holding .broken)
  | broken : Blocked a token (.finished .broken)

/-- A token at which nobody can look is kept, and no caller has come past it. -/
structure Sharing.Blocked (a : Config.ListingAccess) (token : AccessToken) (s : Sharing σ) :
    Prop where
  kept_eq : s.kept = some token
  callers : ∀ phase ∈ s.callers, phase.Blocked a token

namespace Sharing.Blocked

theorem start (a : Config.ListingAccess) (token : AccessToken) (count : Nat) (now : Instant)
    (site : σ) : (Sharing.start count (some token) now site).Blocked a token where
  kept_eq := rfl
  callers _ hmem := List.eq_of_mem_replicate hmem ▸ .waiting

theorem setPhase (h : s.Blocked a token) {phase : Caller.Phase} (hp : phase.Blocked a token)
    (i : Nat) : (s.setPhase i phase).Blocked a token where
  kept_eq := h.kept_eq
  callers other hmem := (List.mem_or_eq_of_mem_set hmem).elim (h.callers other) (· ▸ hp)

/-- Whatever caller takes a step, it sends nothing and does not come past the token. -/
theorem step (h : s.Blocked a token) (ht : ∀ now, token.isExpiring? now = none)
    (answer : Post → σ → Option Http.Answer × σ) (i : Nat) :
    (s.step a answer i).Blocked a token ∧ messages (s.exchange? answer i).toList = [] := by
  unfold Sharing.step exchange?
  cases hi : s.callers[i]? with
  | none => exact ⟨h, rfl⟩
  | some phase =>
    cases h.callers phase (List.mem_of_getElem? hi) with
    | waiting =>
      refine ⟨?_, rfl⟩
      dsimp only
      split
      · exact h
      · rw [h.kept_eq]
        exact h.setPhase .looking i
    | looking =>
      simp only [obtainToken_some_eq, ht]
      exact ⟨h.setPhase .breaking i, rfl⟩
    | breaking => exact ⟨h.setPhase .broken i, rfl⟩
    | broken => exact ⟨h, rfl⟩

/-- In no order of their steps, and wherever the clock is moved, do callers come past the token. -/
theorem moves (h : s.Blocked a token) (ht : ∀ now, token.isExpiring? now = none)
    (answer : Post → σ → Option Http.Answer × σ) (schedule : List Move) :
    (s.moves a answer schedule).Blocked a token ∧
      messages ((s.exchanges a answer schedule).map (·.2)) = [] := by
  induction schedule generalizing s with
  | nil => exact ⟨h, rfl⟩
  | cons m schedule ih =>
    cases m with
    | clock now => exact ih (s := { s with now }) ⟨h.kept_eq, h.callers⟩
    | caller i =>
      obtain ⟨hstep, hsilent⟩ := h.step ht answer i
      obtain ⟨hmoves, hrest⟩ := ih hstep
      refine ⟨hmoves, ?_⟩
      rw [exchanges, List.map_append, messages_append, hrest, List.append_nil]
      simpa [Function.comp_def] using hsilent

end Sharing.Blocked

end Blocking

section Session

variable {a : Config.ListingAccess} {kept : Option AccessToken}
  {xs : List (Exchange Site.signature)} {p : Post} {reply : Http.Answer} {g : Grant}
  {outcome : Outcome (Except TokenFetchError String × Option AccessToken)}

variable [HostNames]

end Session

section Sample

open Sharing

attribute [local instance] HostNames.plain

end Sample

end GroupCalendar.Listing
