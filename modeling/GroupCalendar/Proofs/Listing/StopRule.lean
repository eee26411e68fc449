import GroupCalendar.Proofs.Import.Effect
import GroupCalendar.Proofs.Listing.Horizon
import GroupCalendar.Proofs.Listing.Nodes
import GroupCalendar.Proofs.Program.Returns

/-! # Where a walk stops

A walk requests the pages of a listing one after the other, each at the cursor of the page before.
It stops at the first page that completes a dated event after the limit, that is said to be the last
one, or that has no cursor to go on from, and it fails at the first page that cannot be read.
-/

namespace GroupCalendar

open Store Service

namespace Listing

variable {group : String} {limit : Instant} {pages : Nat} {cursor : Option String}
  {replies : Nat → Except GraphQlError Json} {m : Memory} {asked : List (String × Json)}
  {front : List Page} {p : Page} {x : Except ListingError Page}

/-- A source that replies in turn, with a list of what it was asked. -/
def scripted (replies : Nat → Except GraphQlError Json) : Source (List (String × Json)) :=
  fun query arguments asked => (some (replies asked.length), asked ++ [(query, arguments)])

/-- What is asked for the page at a cursor. -/
def asks (group : String) (cursor : Option String) : String × Json :=
  (pageQuery, pageVariables group cursor)

/-- The page of a reply. -/
def pageOf (group : String) : Except GraphQlError Json → Except ListingError Page
  | .ok x => Page.ofAnswer group x
  | .error e => .error (.query e)

/-- The first replies are read as these pages. -/
def Replied (group : String) (replies : Nat → Except GraphQlError Json) (ps : List Page) : Prop :=
  ∀ i (hi : i < ps.length), pageOf group (replies i) = .ok ps[i]

theorem Replied.concat (h : Replied group replies front)
    (hp : pageOf group (replies front.length) = .ok p) : Replied group replies (front ++ [p]) := by
  intro i hi
  rcases Nat.lt_or_ge i front.length with hlt | hge
  · rw [List.getElem_append_left hlt]
    exact h i hlt
  · rw [List.length_append, List.length_singleton] at hi
    obtain rfl : i = front.length := by omega
    rw [List.getElem_concat_length rfl]
    exact hp

/-- A walk ends with a page behind others: some event of these pages is dated after the limit, or
the page is said to be the last one, or it has no cursor to go on from. -/
def Stops (limit : Instant) (before : List Page) (p : Page) : Prop :=
  (∃ q ∈ before ++ [p], ∃ e ∈ q.events, ∃ date, e.dateTime = some date ∧
    limit.before date = true) ∨
  p.hasNextPage = false ∨ p.endCursor = none ∨ p.endCursor = some ""

section Pages

/-- A page after which the next one is requested. -/
def Page.Continues (limit : Instant) (p : Page) : Prop :=
  p.events.any (Event.isAfter limit) = false ∧ p.next? ≠ none

instance : Decidable (p.Continues limit) :=
  inferInstanceAs (Decidable (_ ∧ _))

theorem isAfter_iff {e : Event} : Event.isAfter limit e = true ↔
    ∃ date, e.dateTime = some date ∧ limit.before date = true := by
  rw [Event.isAfter, Option.any_eq_true]

theorem Page.next?_eq_none_iff : p.next? = none ↔
    p.hasNextPage = false ∨ p.endCursor = none ∨ p.endCursor = some "" := by
  rw [next?]
  cases p.hasNextPage with
  | false => simp
  | true =>
    cases p.endCursor with
    | none => simp
    | some cursor => simp [Option.filter_eq_none_iff]

theorem Page.next?_eq_some {next : String} (h : p.next? = some next) :
    p.endCursor = some next := by
  rw [next?] at h
  split at h
  · exact (Option.filter_eq_some_iff.mp h).1
  · cases h

/-- Behind pages without an event after the limit, a page decides alone. -/
theorem stops_iff (hfront : ∀ q ∈ front, q.events.any (Event.isAfter limit) = false) :
    Stops limit front p ↔ ¬ p.Continues limit := by
  rw [Stops, ← Page.next?_eq_none_iff, Page.Continues, ne_eq, not_and_or, not_not,
    Bool.not_eq_false]
  refine or_congr_left ⟨?_, fun h => ?_⟩
  · rintro ⟨q, hq, e, he, hafter⟩
    have hany : q.events.any (Event.isAfter limit) = true :=
      List.any_eq_true.mpr ⟨e, he, isAfter_iff.mpr hafter⟩
    rcases List.mem_append.mp hq with hq | hq
    · exact absurd hany (by simp [hfront q hq])
    · exact List.mem_singleton.mp hq ▸ hany
  · obtain ⟨e, he, hafter⟩ := List.any_eq_true.mp h
    exact ⟨p, List.mem_append_right _ List.mem_cons_self, e, he, isAfter_iff.mp hafter⟩

/-- If no page of a list stops the walk, each of them leads to the next request. -/
theorem continues_of_not_stops
    (h : ∀ i (hi : i < front.length), ¬ Stops limit (front.take i) front[i]) :
    ∀ q ∈ front, q.Continues limit := by
  suffices hall : ∀ i (hi : i < front.length), front[i].Continues limit by
    intro q hq
    obtain ⟨i, hi, rfl⟩ := List.getElem_of_mem hq
    exact hall i hi
  intro i
  induction i using Nat.strongRecOn with
  | ind i ih =>
    intro hi
    have hbefore : ∀ q ∈ front.take i, q.events.any (Event.isAfter limit) = false := by
      intro q hq
      obtain ⟨j, hj, rfl⟩ := List.getElem_of_mem hq
      rw [List.length_take, Nat.lt_min] at hj
      rw [List.getElem_take]
      exact (ih j hj.1 hj.2).1
    exact not_not.mp (mt (stops_iff hbefore).mpr (h i hi))

end Pages

section Runs

theorem run_fetchPage (group : String) (cursor : Option String)
    (replies : Nat → Except GraphQlError Json) (m : Memory) (asked : List (String × Json)) :
    (fetchPage group cursor).run.run (answer (scripted replies)) (m, asked) =
      (.done (pageOf group (replies asked.length)), m, asked ++ [asks group cursor]) := by
  have hreply : (Task.mapError ListingError.query
      (Task.graphQl pageQuery (pageVariables group cursor))).run.run (answer (scripted replies))
        (m, asked) =
      (.done ((replies asked.length).mapError .query), m, asked ++ [asks group cursor]) := rfl
  cases h : replies asked.length with
  | ok y =>
    rw [h] at hreply
    exact Task.run_bind_ok hreply
  | error e =>
    rw [h] at hreply
    exact Task.run_bind_error hreply

/-- A walk behind pages that lead on ends with the next page or with its error. The pages are
gathered and the cursors handed on from page to page. -/
theorem run_eventsFrom
    (hfront : ∀ i (hi : i < front.length),
      pageOf group (replies (asked.length + i)) = .ok front[i])
    (hgo : ∀ q ∈ front, q.Continues limit)
    (hx : pageOf group (replies (asked.length + front.length)) = x)
    (hend : ∀ p, x = .ok p → ¬ p.Continues limit) (hpages : front.length < pages) :
    (eventsFrom group limit pages cursor).run.run (answer (scripted replies)) (m, asked) =
      (.done (x.map fun p => eventsOf (front ++ [p])), m,
        asked ++ (cursor :: front.map (·.endCursor)).map (asks group)) := by
  induction front generalizing cursor asked pages with
  | nil =>
    obtain ⟨pages, rfl⟩ := Nat.exists_eq_add_one_of_ne_zero (Nat.ne_zero_of_lt hpages)
    have hfetch := run_fetchPage group cursor replies m asked
    replace hx : pageOf group (replies asked.length) = x := hx
    rw [hx] at hfetch
    cases x with
    | error e => exact Task.run_bind_error hfetch
    | ok p =>
      refine (Task.run_bind_ok hfetch).trans ?_
      have hstop := hend p rfl
      have hevents : eventsOf ([] ++ [p]) = p.events := by simp [eventsOf]
      split
      · rw [Except.map, hevents]
        rfl
      · next hany =>
        have hnext : p.next? = none := by
          by_contra hne
          exact hstop ⟨Bool.not_eq_true _ ▸ hany, hne⟩
        rw [hnext, Except.map, hevents]
        rfl
  | cons q front ih =>
    obtain ⟨pages, rfl⟩ := Nat.exists_eq_add_one_of_ne_zero (Nat.ne_zero_of_lt hpages)
    obtain ⟨⟨hany, hne⟩, hgo⟩ := List.forall_mem_cons.mp hgo
    obtain ⟨next, hnext⟩ := Option.ne_none_iff_exists'.mp hne
    have hfetch := run_fetchPage group cursor replies m asked
    have hq : pageOf group (replies asked.length) = .ok q := hfront 0 (Nat.zero_lt_succ _)
    rw [hq] at hfetch
    refine (Task.run_bind_ok hfetch).trans ?_
    rw [if_neg (by rw [hany]; exact Bool.false_ne_true), hnext]
    have hlength : (asked ++ [asks group cursor]).length = asked.length + 1 :=
      List.length_append
    have hrest : (eventsFrom group limit pages (some next)).run.run (answer (scripted replies))
        (m, asked ++ [asks group cursor]) =
          (.done (x.map fun p => eventsOf (front ++ [p])), m, asked ++ [asks group cursor] ++
            (some next :: front.map (·.endCursor)).map (asks group)) := by
      refine ih (fun i hi => ?_) hgo ?_ (Nat.lt_of_succ_lt_succ hpages)
      · rw [hlength, Nat.add_assoc, Nat.add_comm 1 i]
        exact hfront (i + 1) (Nat.succ_lt_succ hi)
      · rw [hlength, Nat.add_assoc, Nat.add_comm 1 front.length]
        exact hx
    rw [List.append_assoc] at hrest
    rw [List.map_cons, List.map_cons, List.map_cons, Page.next?_eq_some hnext]
    cases x with
    | error e => exact Task.run_bind_error hrest
    | ok p => exact Task.run_bind_ok hrest

/-- The same from the first page on. -/
theorem run_eventsUntil (m : Memory) (hfront : Replied group replies front)
    (hgo : ∀ q ∈ front, q.Continues limit) (hx : pageOf group (replies front.length) = x)
    (hend : ∀ p, x = .ok p → ¬ p.Continues limit) (hpages : front.length < pages) :
    (eventsUntil pages group limit).run.run (answer (scripted replies)) (m, []) =
      (.done (x.map fun p => eventsOf (front ++ [p])), m,
        (none :: front.map (·.endCursor)).map (asks group)) := by
  refine run_eventsFrom (fun i hi => ?_) hgo ?_ hend hpages
  · rw [List.length_nil, Nat.zero_add]
    exact hfront i hi
  · rw [List.length_nil, Nat.zero_add]
    exact hx

/-- The events of pages are those of the edges of the answers, one for each edge. -/
theorem forall₂_edges {answers : List Json} {ps : List Page} (hps : Replied group replies ps)
    (hlength : answers.length = ps.length)
    (h : ∀ i (hi : i < answers.length), replies i = .ok answers[i] ∧ answers[i].Ordered) :
    List.Forall₂ (fun edge e => eventOf edge = .ok e) (answers.flatMap edgesOf) (eventsOf ps) := by
  have hpages : List.Forall₂ (fun y p => y.Ordered ∧ Page.ofAnswer group y = .ok p) answers ps := by
    refine List.forall₂_iff_get.mpr ⟨hlength, fun i hi hi' => ?_⟩
    obtain ⟨hreply, hordered⟩ := h i hi
    have hp := hps i hi'
    rw [hreply] at hp
    exact ⟨hordered, hp⟩
  clear hps hlength h
  induction hpages with
  | nil => exact .nil
  | cons hp _ ih =>
    rw [List.flatMap_cons, eventsOf_cons]
    exact List.rel_append (Page.forall₂_of_ofAnswer hp.1 hp.2) ih

/-- A walk requests the pages up to the first one that stops it or cannot be read, the first page
without a cursor and every other one at the cursor of the page before. It gives the error, or else
the events of all these pages in order, one for each edge in the answers. -/
theorem eventsUntil_stops (m : Memory) (hfront : Replied group replies front)
    (hgo : ∀ i (hi : i < front.length), ¬ Stops limit (front.take i) front[i])
    (hx : pageOf group (replies front.length) = x) (hstop : ∀ p, x = .ok p → Stops limit front p)
    (hpages : front.length < pages) :
    (eventsUntil pages group limit).run.run (answer (scripted replies)) (m, []) =
        (.done (x.map fun p => eventsOf (front ++ [p])), m,
          (none :: front.map (·.endCursor)).map (asks group)) ∧
      ∀ (p : Page) (answers : List Json), x = .ok p → answers.length = (front ++ [p]).length →
        (∀ i (hi : i < answers.length), replies i = .ok answers[i] ∧ answers[i].Ordered) →
          List.Forall₂ (fun edge e => eventOf edge = .ok e) (answers.flatMap edgesOf)
            (eventsOf (front ++ [p])) := by
  have hcontinues := continues_of_not_stops hgo
  have hends : ∀ p, x = .ok p → ¬ p.Continues limit := fun p hp =>
    (stops_iff fun q hq => (hcontinues q hq).1).mp (hstop p hp)
  constructor
  · exact run_eventsUntil m hfront hcontinues hx hends hpages
  · rintro p answers rfl hlength hanswers
    exact forall₂_edges (hfront.concat hx) hlength hanswers

end Runs

section Sample

open Import

/-- A first page that leads on, with an event before the limit and one without a date. -/
def firstAnswer : Json :=
  sampleAnswer [sampleEdge "x" "a" "2025-04-03T10:00+00:00", sampleEdge "y" "a" "someday"] "next"

/-- A second page with an event after the limit, behind which there would be more. -/
def secondAnswer : Json :=
  sampleAnswer [sampleEdge "z" "a" "2025-12-01T10:00+00:00"] "more"

def sampleReplies (i : Nat) : Except GraphQlError Json :=
  .ok (if i = 0 then firstAnswer else secondAnswer)

def samplePage (y : Json) : Page :=
  (Page.ofAnswer "a" y).toOption.getD {}

theorem ordered_sampleEdge (id group date : String) : (sampleEdge id group date).Ordered := by
  have hid : ("group", Json.object [("urlname", .string group)]).1 < ("id", Json.string id).1 :=
    show "group" < "id" by decide
  have hgroup : ("dateTime", Json.string date).1 < "group" := show "dateTime" < "group" by decide
  have hdate : ("dateTime", Json.string date).1 < "id" := show "dateTime" < "id" by decide
  refine .member "node" (.object (List.pairwise_cons.mpr ⟨?_, List.pairwise_pair.mpr hid⟩) ?_)
  · exact List.forall_mem_cons.mpr ⟨hgroup, List.forall_mem_singleton.mpr hdate⟩
  · refine List.forall_mem_cons.mpr ⟨.string date, List.forall_mem_cons.mpr ⟨?_, ?_⟩⟩
    · exact .member "urlname" (.string group)
    · exact List.forall_mem_singleton.mpr (.string id)

theorem ordered_sampleAnswer {edges : List Json} (h : ∀ edge ∈ edges, edge.Ordered)
    (cursor : String) : (sampleAnswer edges cursor).Ordered := by
  have hinfo : (Json.object [("endCursor", .string cursor), ("hasNextPage", .bool true)]).Ordered :=
    .object (List.pairwise_pair.mpr (show "endCursor" < "hasNextPage" by decide))
      (List.forall_mem_cons.mpr ⟨.string cursor, List.forall_mem_singleton.mpr (.bool true)⟩)
  refine .member "data" (.member "events" (.member "unifiedEvents" (.object ?_ ?_)))
  · exact List.pairwise_pair.mpr (show "edges" < "pageInfo" by decide)
  · exact List.forall_mem_cons.mpr ⟨.array h, List.forall_mem_singleton.mpr hinfo⟩

theorem eventsUntil_stops_sample :
    (eventsUntil 5 "a" (cutoff sampleNow)).run.run (answer (scripted sampleReplies))
        (sampleMemory [] {}, []) =
      (.done (.ok (eventsOf [samplePage firstAnswer, samplePage secondAnswer])), sampleMemory [] {},
        [asks "a" none, asks "a" (some "next")]) ∧
    List.Forall₂ (fun edge e => eventOf edge = .ok e)
      ([firstAnswer, secondAnswer].flatMap edgesOf)
      (eventsOf [samplePage firstAnswer, samplePage secondAnswer]) := by
  have hfront : Replied "a" sampleReplies [samplePage firstAnswer] := by
    intro i hi
    obtain rfl : i = 0 := by simpa using hi
    rfl
  have hfirst : (samplePage firstAnswer).Continues (cutoff sampleNow) := by decide +kernel
  have hgo : ∀ i (hi : i < [samplePage firstAnswer].length), ¬ Stops (cutoff sampleNow)
      ([samplePage firstAnswer].take i) [samplePage firstAnswer][i] := by
    intro i hi
    obtain rfl : i = 0 := by simpa using hi
    exact mt (stops_iff (List.forall_mem_nil _)).mp (not_not.mpr hfirst)
  have hstop : ∀ p, .ok (samplePage secondAnswer) = (Except.ok p : Except ListingError Page) →
      Stops (cutoff sampleNow) [samplePage firstAnswer] p := by
    rintro p ⟨⟩
    exact (stops_iff (List.forall_mem_singleton.mpr hfirst.1)).mpr (by decide +kernel)
  obtain ⟨hrun, hnodes⟩ := eventsUntil_stops (sampleMemory [] {}) hfront hgo rfl hstop
    (show 1 < 5 by decide)
  refine ⟨hrun, hnodes _ [firstAnswer, secondAnswer] rfl rfl ?_⟩
  intro i hi
  match i, hi with
  | 0, _ => exact ⟨rfl, ordered_sampleAnswer (by simp [ordered_sampleEdge]) "next"⟩
  | 1, _ => exact ⟨rfl, ordered_sampleAnswer (by simp [ordered_sampleEdge]) "more"⟩

end Sample

end Listing

end GroupCalendar
