import GroupCalendar.Proofs.Listing.StopRule

/-! # Near events are not missed

However a listing in the order of the dates is cut into pages, a walk returns whole pages from its
beginning, with every event up to the limit among them, and requests no page behind the first one
with an event after the limit.
-/

namespace GroupCalendar.Listing

open Store Service

variable {group : String} {limit : Instant} {pages : Nat}
  {replies : Nat → Except GraphQlError Json} {ps front back : List Page} {p : Page}

/-- The pages of a listing: every one but the last says that there are more and from where, and the
last one does not. -/
structure Paged (ps : List Page) : Prop where
  ne_nil : ps ≠ []
  leads : ∀ p ∈ ps.dropLast, p.hasNextPage = true ∧ p.endCursor ≠ none ∧ p.endCursor ≠ some ""
  ends : ∀ p ∈ ps.getLast?, p.hasNextPage = false ∨ p.endCursor = none ∨ p.endCursor = some ""

/-- Some page of a listing is the first that does not lead on. -/
theorem Paged.exists_stop (h : Paged ps) (limit : Instant) : ∃ front p back,
    ps = front ++ p :: back ∧ (∀ q ∈ front, q.Continues limit) ∧ ¬ p.Continues limit := by
  have hlast := List.getLast?_eq_some_getLast h.ne_nil
  have hends : ¬ (ps.getLast h.ne_nil).Continues limit := fun hgo =>
    hgo.2 (Page.next?_eq_none_iff.mpr (h.ends _ hlast))
  have hsome : (ps.find? fun p => ¬ p.Continues limit).isSome := by
    refine List.find?_isSome.mpr ⟨ps.getLast h.ne_nil, List.getLast_mem h.ne_nil, ?_⟩
    simpa using hends
  obtain ⟨p, hp⟩ := Option.isSome_iff_exists.mp hsome
  obtain ⟨hstop, front, back, heq, hfront⟩ := List.find?_eq_some_iff_append.mp hp
  exact ⟨front, p, back, heq, fun q hq => by simpa using hfront q hq, by simpa using hstop⟩

/-- A page before the last one stops a walk by an event after the limit alone. -/
theorem Paged.any_isAfter (h : Paged (front ++ p :: back)) (hb : back ≠ [])
    (hp : ¬ p.Continues limit) : p.events.any (Event.isAfter limit) = true := by
  have hmem : p ∈ (front ++ p :: back).dropLast := by
    rw [List.dropLast_append_of_ne_nil (List.cons_ne_nil p back), List.dropLast_cons_of_ne_nil hb]
    exact List.mem_append_right _ List.mem_cons_self
  obtain ⟨hmore, hsome, hne⟩ := h.leads p hmem
  by_contra hany
  refine hp ⟨Bool.not_eq_true _ ▸ hany, fun hnone => ?_⟩
  rcases Page.next?_eq_none_iff.mp hnone with hlast | hlast | hlast
  · rw [hmore] at hlast
    cases hlast
  · exact hsome hlast
  · exact hne hlast

theorem Replied.split (h : Replied group replies (front ++ p :: back)) :
    Replied group replies front ∧ pageOf group (replies front.length) = .ok p := by
  have hlength : (front ++ p :: back).length = front.length + (back.length + 1) :=
    List.length_append
  constructor
  · intro i hi
    have hp := h i (by omega)
    rwa [List.getElem_append_left hi] at hp
  · have hp := h front.length (by omega)
    rwa [List.getElem_append_right (Nat.le_refl _), getElem_congr_idx (Nat.sub_self _)] at hp

/-- Behind the page that stops a walk, dated events are after the limit. -/
theorem Paged.before_of_mem_back (h : Paged (front ++ p :: back))
    (ho : Ordered (eventsOf (front ++ p :: back))) (hp : ¬ p.Continues limit) {e : Event}
    (he : e ∈ eventsOf back) {date : Instant} (hd : e.dateTime = some date) :
    limit.before date = true := by
  have hb : back ≠ [] := by
    rintro rfl
    cases he
  obtain ⟨a, ha, hafter⟩ := List.any_eq_true.mp (h.any_isAfter hb hp)
  rw [eventsOf_append, eventsOf_cons] at ho
  have hcross := (List.pairwise_append.mp (List.pairwise_append.mp ho).2.1).2.2
  exact isAfter_of_ordered hafter (hcross a ha e he) hd

/-- A walk of a listing in the order of the dates requests its first pages and returns their events.
All dated events of the other pages are after the limit, so that every event up to the limit is
returned, and no page is requested behind the first one with an event after the limit. -/
theorem near_events_returned (m : Memory) (hps : Paged ps) (ho : Ordered (eventsOf ps))
    (hr : Replied group replies ps) (hpages : ps.length ≤ pages) :
    ∃ n ≤ ps.length, ∃ asked : List (String × Json),
      (eventsUntil pages group limit).run.run (answer (scripted replies)) (m, []) =
        (.done (.ok (eventsOf (ps.take n))), m, asked) ∧
      asked = (none :: (ps.take n).dropLast.map (·.endCursor)).map (asks group) ∧
      asked.length = n ∧
      (∀ e ∈ eventsOf (ps.drop n), ∀ date, e.dateTime = some date → limit.before date = true) ∧
      (∀ e ∈ eventsOf ps, ∀ date, e.dateTime = some date → limit.before date = false →
        e ∈ eventsOf (ps.take n)) ∧
      ∀ i (hi : i < ps.length), ps[i].events.any (Event.isAfter limit) = true → n ≤ i + 1 := by
  obtain ⟨front, p, back, rfl, hgo, hp⟩ := hps.exists_stop limit
  have hsplit : front ++ p :: back = (front ++ [p]) ++ back := by
    rw [List.append_assoc, List.singleton_append]
  have hlength : (front ++ [p]).length = front.length + 1 := by
    rw [List.length_append, List.length_singleton]
  have htake : (front ++ p :: back).take (front.length + 1) = front ++ [p] := by
    rw [hsplit, ← hlength, List.take_left]
  have hdrop : (front ++ p :: back).drop (front.length + 1) = back := by
    rw [hsplit, ← hlength, List.drop_left]
  have hafter : ∀ e ∈ eventsOf back, ∀ date, e.dateTime = some date →
      limit.before date = true := fun e he date hd => hps.before_of_mem_back ho hp he hd
  have hle : front.length + 1 ≤ (front ++ p :: back).length := by
    rw [hsplit, List.length_append, hlength]
    exact Nat.le_add_right _ _
  obtain ⟨hfront, hx⟩ := hr.split
  have hend : ∀ q, (.ok p : Except ListingError Page) = .ok q → ¬ q.Continues limit := by
    rintro q ⟨⟩
    exact hp
  refine ⟨front.length + 1, hle, _, ?_, rfl, ?_, ?_, ?_, ?_⟩
  · rw [htake, List.dropLast_concat]
    exact run_eventsUntil m hfront hgo hx hend (Nat.lt_of_lt_of_le hle hpages)
  · rw [htake, List.dropLast_concat, List.length_map, List.length_cons, List.length_map]
  · rw [hdrop]
    exact hafter
  · intro e he date hd hnot
    rw [hsplit, eventsOf_append] at he
    rw [htake]
    refine (List.mem_append.mp he).resolve_right fun hback => ?_
    rw [hafter e hback date hd] at hnot
    cases hnot
  · intro i hi hany
    by_contra hlt
    have hi' : i < front.length := by omega
    rw [List.getElem_append_left hi', (hgo _ (List.getElem_mem hi')).1] at hany
    cases hany

section Sample

open Import

/-- A listing with an empty page and an event without a date before the page that stops the walk,
and one page behind it. -/
def nearAnswer (i : Nat) : Json :=
  [sampleAnswer [] "1", firstAnswer, secondAnswer, sampleAnswer [] ""].getD i .null

def nearPages : List Page :=
  (List.range 4).map (samplePage <| nearAnswer ·)

theorem near_events_returned_sample :
    Paged nearPages ∧ Ordered (eventsOf nearPages) ∧ ∃ n ≤ 3, ∃ asked : List (String × Json),
      (eventsUntil 4 "a" (cutoff sampleNow)).run.run (answer (scripted (.ok <| nearAnswer ·)))
        (sampleMemory [] {}, []) =
          (.done (.ok (eventsOf (nearPages.take n))), sampleMemory [] {}, asked) ∧
      asked.length = n := by
  have hps : Paged nearPages := ⟨by decide, by decide +kernel, by decide +kernel⟩
  have ho : Ordered (eventsOf nearPages) := by decide +kernel
  have hr : Replied "a" (.ok <| nearAnswer ·) nearPages := by
    intro i hi
    match i, hi with
    | 0, _ | 1, _ | 2, _ | 3, _ => rfl
  obtain ⟨n, -, asked, hrun, -, hlength, -, -, hfirst⟩ :=
    near_events_returned (sampleMemory [] {}) hps ho hr (show nearPages.length ≤ 4 by decide)
  exact ⟨hps, ho, n, hfirst 2 (by decide) (by decide +kernel), asked, hrun, hlength⟩

end Sample

end GroupCalendar.Listing
