import GroupCalendar.Listing.Client
import GroupCalendar.Proofs.Listing.SingleFlight

/-! # Time left of a returned token

A token that is kept is returned while the margin of its time is left. A new one is returned
whatever time it was granted for, so the margin is left of it exactly where the grant is as long.
-/

namespace GroupCalendar.Listing

open Http

variable {a : Config.ListingAccess} {kept : Option AccessToken} {token : AccessToken}
  {now : Instant} {xs : List (Exchange Site.signature)}

section Time

/-- The margin is left of the time of a token, in nanoseconds. -/
def AccessToken.HasMargin (token : AccessToken) (now : Instant) : Prop :=
  marginSeconds * nanosPerSecond ≤ now.nanosUntil token.expires

instance : Decidable (token.HasMargin now) :=
  inferInstanceAs (Decidable (_ ≤ _))

theorem AccessToken.hasMargin (h : token.isExpiring? now = some false) : token.HasMargin now := by
  obtain ⟨limit, hlimit, hbefore⟩ := Option.map_eq_some_iff.mp h
  exact Instant.le_nanosUntil hlimit (by decide) hbefore

end Time

section Exchanges

variable {outcome : Outcome (Except TokenFetchError AccessToken)}

/-- A token is granted in the last message and at the instant that is read then. -/
def GrantedLast (token : AccessToken) (now : Instant) (xs : List (Exchange Site.signature)) :
    Prop :=
  ∃ start p reply g, xs = [reading start, message p (some reply), reading now] ∧
    Grant.ofAnswer reply = .ok g ∧ g.toToken now = .ok token

variable [HostNames]

/-- A fetch ends with a token that is granted, or with an error. It breaks off where no assertion
could expire. -/
theorem Fetch.ends (h : Fetch a xs outcome) :
    (∃ token now, outcome = .done (.ok token) ∧ GrantedLast token now xs) ∨
      (∃ e, outcome = .done (.error e)) ∨
      (outcome = .broken ∧ ∃ now, reading now ∈ xs ∧ Assertion.expiry? now = none) := by
  cases h with
  | unsigned | unsent | unanswered | refused => exact .inr (.inl ⟨_, rfl⟩)
  | @granted start p reply g later _ hg =>
    cases ht : g.toToken later with
    | error e => exact .inr (.inl ⟨e, rfl⟩)
    | ok token => exact .inl ⟨token, later, rfl, start, p, reply, g, rfl, hg, ht⟩
  | @broken now hx => exact .inr (.inr ⟨rfl, now, List.mem_cons_self, hx⟩)

/-- A caller ends with the token that it finds, with a new one, or with an error. It breaks off
where the calendar does not reach to the end of an assertion or back to the margin of the token. -/
theorem Course.ends (h : Course a kept xs outcome) :
    (∃ token now, outcome = .done (.ok token) ∧
      ((kept = some token ∧ xs = [reading now] ∧ token.HasMargin now) ∨
        ∃ looks last, xs = looks ++ last ∧ messages looks = [] ∧ GrantedLast token now last)) ∨
      (∃ e, outcome = .done (.error e)) ∨
      (outcome = .broken ∧ ∃ now, reading now ∈ xs ∧
        (Assertion.expiry? now = none ∨ ∃ token ∈ kept, token.isExpiring? now = none)) := by
  cases h with
  | missing h =>
    rcases h.ends with ⟨token, now, ho, hlast⟩ | he | ⟨ho, now, hmem, hx⟩
    · exact .inl ⟨token, now, ho, .inr ⟨[], xs, rfl, rfl, hlast⟩⟩
    · exact .inr (.inl he)
    · exact .inr (.inr ⟨ho, now, hmem, .inl hx⟩)
  | @fresh token look ht => exact .inl ⟨token, look, rfl, .inl ⟨rfl, rfl, token.hasMargin ht⟩⟩
  | @expiring _ look rest _ _ h =>
    rcases h.ends with ⟨token, now, ho, hlast⟩ | he | ⟨ho, now, hmem, hx⟩
    · exact .inl ⟨token, now, ho, .inr ⟨[reading look], rest, rfl, rfl, hlast⟩⟩
    · exact .inr (.inl he)
    · exact .inr (.inr ⟨ho, now, List.mem_cons_of_mem _ hmem, .inl hx⟩)
  | @broken token look ht =>
    exact .inr (.inr ⟨rfl, look, List.mem_cons_self, .inr ⟨token, rfl, ht⟩⟩)

end Exchanges

section Margin

/-- All grants among some exchanges are for the margin or more. -/
def GrantsMargin (xs : List (Exchange Site.signature)) : Prop :=
  ∀ p reply g, message p (some reply) ∈ xs → Grant.ofAnswer reply = .ok g →
    marginSeconds ≤ g.seconds

theorem GrantsMargin.append {ys : List (Exchange Site.signature)} :
    GrantsMargin (xs ++ ys) ↔ GrantsMargin xs ∧ GrantsMargin ys := by
  simp only [GrantsMargin, List.mem_append, or_imp, forall_and]

variable [HostNames]

end Margin

section Sample

open Sharing

attribute [local instance] HostNames.plain

def shortToken : AccessToken :=
  ⟨"t1", (Instant.ofUnix? 1483228809 0).getD .epoch⟩

end Sample

end GroupCalendar.Listing
