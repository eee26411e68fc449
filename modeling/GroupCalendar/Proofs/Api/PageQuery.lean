import GroupCalendar.Api.Requests
import GroupCalendar.Proofs.Event.Identity
import GroupCalendar.Proofs.Number.Numeral
import GroupCalendar.Proofs.Time.Requested
import GroupCalendar.Proofs.Url.Form

/-! # Reading back the query of a page

The query that asks for a page is read as the page's request, with its dates to the whole second.
-/

namespace GroupCalendar

/-- The request with its dates to the whole second. -/
def PageRequest.wholeSeconds (q : PageRequest) : PageRequest :=
  { q with before := q.before.map (·.wholeSecond), after := q.after.map (·.wholeSecond) }

/-- The limit is an integer of 32 bits, if there is one. -/
def PageRequest.Bounded (q : PageRequest) : Prop :=
  ∀ limit, q.limit = some limit → IntegerRange.i32.contains limit = true

namespace Api

variable {q q' : PageRequest}

section Pairs

theorem readPair_cursor (h : q.cursor = none) (s : String) :
    readPair q ("cursor", s) = .ok { q with cursor := some s } := by
  simp only [readPair, h]
  rfl

theorem readPair_limit (h : q.limit = none) {limit : Int}
    (hmem : IntegerRange.i32.contains limit) :
    readPair q ("limit", toString limit) = .ok { q with limit := some limit } := by
  simp only [readPair, h, IntegerRange.read_toString (by decide) hmem]
  rfl

theorem readPair_before (h : q.before = none) (t : Instant) :
    readPair q ("before", formatStoredDate t) = .ok { q with before := some t.wholeSecond } := by
  simp only [readPair, h, Instant.readRequestedDate_formatStoredDate]
  rfl

theorem readPair_after (h : q.after = none) (t : Instant) :
    readPair q ("after", formatStoredDate t) = .ok { q with after := some t.wholeSecond } := by
  simp only [readPair, h, Instant.readRequestedDate_formatStoredDate]
  rfl

/-- The pair of a part that may be missing. -/
def optionalPair (name : String) (value : Option String) : List (String × String) :=
  (value.map fun v => (name, v)).toList

/-- A part of a request that may be missing is read from its pair. -/
theorem foldlM_optionalPair {name : String} {value : Option String} (hnone : value = none → q' = q)
    (hsome : ∀ v, value = some v → readPair q (name, v) = .ok q') :
    (optionalPair name value).foldlM readPair q = .ok q' := by
  cases value with
  | none =>
    rw [hnone rfl]
    rfl
  | some v =>
    have hread := hsome v rfl
    rw [optionalPair, Option.map_some, Option.toList_some, List.foldlM_cons, hread]
    rfl

theorem foldlM_queryPairs (h : q.Bounded) :
    (queryPairs q).foldlM readPair {} = .ok q.wholeSeconds := by
  have hcursor : (optionalPair "cursor" q.cursor).foldlM readPair {} =
      .ok { cursor := q.cursor } :=
    foldlM_optionalPair (fun hn => by rw [hn]) fun v hv => by rw [readPair_cursor rfl, hv]
  have hlimit : (optionalPair "limit" (q.limit.map toString)).foldlM readPair
      { cursor := q.cursor } = .ok { cursor := q.cursor, limit := q.limit } := by
    refine foldlM_optionalPair (fun hn => by rw [Option.map_eq_none_iff.mp hn]) fun v hv => ?_
    obtain ⟨limit, hl, rfl⟩ := Option.map_eq_some_iff.mp hv
    rw [readPair_limit rfl (h limit hl), hl]
  have hbefore : (optionalPair "before" (q.before.map formatStoredDate)).foldlM readPair
      { cursor := q.cursor, limit := q.limit } =
        .ok { q.wholeSeconds with after := none } := by
    refine foldlM_optionalPair (fun hn => ?_) fun v hv => ?_
    · rw [PageRequest.wholeSeconds, Option.map_eq_none_iff.mp hn]
      rfl
    · obtain ⟨t, ht, rfl⟩ := Option.map_eq_some_iff.mp hv
      rw [readPair_before rfl, PageRequest.wholeSeconds, ht]
      rfl
  have hafter : (optionalPair "after" (q.after.map formatStoredDate)).foldlM readPair
      { q.wholeSeconds with after := none } = .ok q.wholeSeconds := by
    refine foldlM_optionalPair (fun hn => ?_) fun v hv => ?_
    · rw [PageRequest.wholeSeconds, Option.map_eq_none_iff.mp hn]
      rfl
    · obtain ⟨t, ht, rfl⟩ := Option.map_eq_some_iff.mp hv
      rw [readPair_after rfl, PageRequest.wholeSeconds, ht]
      rfl
  change (_ ++ _ ++ _ ++ _ : List (String × String)).foldlM readPair {} = _
  rw [List.foldlM_append, List.foldlM_append, List.foldlM_append]
  change ((((optionalPair "cursor" _).foldlM readPair {} >>= _) >>= _) >>= _) = _
  rw [hcursor]
  change (((optionalPair "limit" _).foldlM readPair _ >>= _) >>= _) = _
  rw [hlimit]
  change ((optionalPair "before" _).foldlM readPair _ >>= _) = _
  rw [hbefore]
  exact hafter

end Pairs

/-- The query that asks for a page is read as its request. -/
theorem readQuery_encode (h : q.Bounded) :
    readQuery (Form.encode (queryPairs q)) = .ok q.wholeSeconds := by
  rw [readQuery, Form.decode_encode, foldlM_queryPairs h]
  rfl

section Bounds

theorem bounded_readPair (h : q.Bounded) {pair : String × String} (hq : readPair q pair = .ok q') :
    q'.Bounded := by
  obtain ⟨name, value⟩ := pair
  simp only [readPair] at hq
  split at hq
  case h_4 =>
    obtain ⟨limit, hlimit, hq⟩ := Record.bind_eq_ok hq
    cases hq
    split at hlimit
    · cases hlimit
    · rintro _ ⟨⟩
      exact IntegerRange.contains_of_read (by decide)
        (Record.ok_of_mapError (Record.ok_of_mapError hlimit))
  case h_5 =>
    cases hq
    exact h
  all_goals
    obtain ⟨x, -, hq⟩ := Record.bind_eq_ok hq
    cases hq
    exact h

theorem bounded_foldlM {pairs : List (String × String)} (h : q.Bounded)
    (hq : pairs.foldlM readPair q = .ok q') : q'.Bounded := by
  induction pairs generalizing q with
  | nil =>
    cases hq
    exact h
  | cons pair pairs ih =>
    rw [List.foldlM_cons] at hq
    obtain ⟨next, hnext, hq⟩ := Record.bind_eq_ok hq
    exact ih (bounded_readPair h hnext) hq

/-- A limit that is read is an integer of 32 bits. -/
theorem bounded_of_readQuery {query : List Char} (h : readQuery query = .ok q) : q.Bounded :=
  bounded_foldlM (q := {}) nofun (Record.ok_of_mapError h)

end Bounds

end Api

end GroupCalendar
