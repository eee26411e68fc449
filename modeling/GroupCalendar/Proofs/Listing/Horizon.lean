import GroupCalendar.Proofs.Store.Session

/-! # The horizon of a listing

Of the pages of a listing the walk requests those up to the first one with an event after the
limit, and returns all of their events. If the listing is in the order of the dates, every dated
event that is left out is after the limit.
-/

namespace GroupCalendar

theorem Instant.before_of_before_of_not {a b d : Instant} (h : a.before b = true)
    (hd : d.before b = false) : a.before d = true := by
  simp only [before, Bool.or_eq_true, Bool.and_eq_true, decide_eq_true_eq, Bool.or_eq_false_iff,
    Bool.and_eq_false_iff, decide_eq_false_iff_not] at h hd ⊢
  omega

namespace Listing

open Store Service

variable {ω : Type} {source : Source ω} {group : String} {cursor : Option String}

/-- A source answers with a page at a cursor, whatever its state. -/
def Serves (source : Source ω) (group : String) (cursor : Option String) (p : Page) : Prop :=
  ∀ w, ∃ x, (source pageQuery (pageVariables group cursor) w).1 = some (.ok x) ∧
    Page.ofAnswer group x = .ok p

/-- The pages of a listing from a cursor on, each of which leads to the next one. -/
inductive Listed (source : Source ω) (group : String) : Option String → List Page → Prop
  | last {cursor p} : Serves source group cursor p → p.next? = none →
      Listed source group cursor [p]
  | more {cursor p next ps} : Serves source group cursor p → p.next? = some next →
      Listed source group (some next) ps → Listed source group cursor (p :: ps)

/-- The events of pages. -/
def eventsOf (ps : List Page) : List Event :=
  ps.flatMap (·.events)

theorem eventsOf_cons (p : Page) (ps : List Page) : eventsOf (p :: ps) = p.events ++ eventsOf ps :=
  List.flatMap_cons

theorem eventsOf_append (ps qs : List Page) : eventsOf (ps ++ qs) = eventsOf ps ++ eventsOf qs :=
  List.flatMap_append

/-- The pages up to the first one with an event after a limit. -/
def requested (limit : Instant) : List Page → List Page
  | [] => []
  | p :: ps => if p.events.any (Event.isAfter limit) then [p] else p :: requested limit ps

section Walk

theorem fetchPage_ensures {p : Page} (h : Serves source group cursor p) (s : Memory × ω) :
    (fetchPage group cursor).Ensures (session source) s fun q _ => q = p := by
  obtain ⟨m, w⟩ := s
  obtain ⟨x, hx, hp⟩ := h w
  have hg : (Task.graphQl pageQuery (pageVariables group cursor)).Ensures (session source) (m, w)
      fun y _ => y = x := by
    refine Task.ensures_graphQl _ trivial ?_
    intro y s' hy
    have hy := (Prod.mk.inj hy).1
    rw [hx] at hy
    cases hy
    rfl
  refine hg.mapError.bind ?_
  rintro y s' rfl
  refine Task.ensures_ofExcept ?_
  intro q hq
  exact Except.ok.inj (hq.symm.trans hp)

/-- The walk returns the events of the pages that it requests. -/
theorem eventsFrom_ensures {ps : List Page} (h : Listed source group cursor ps)
    (limit : Instant) (pages : Nat) (s : Memory × ω) :
    (eventsFrom group limit pages cursor).Ensures (session source) s fun events _ =>
      events = eventsOf (requested limit ps) := by
  induction pages generalizing cursor ps s with
  | zero => exact Task.ensures_exhausted _ _
  | succ pages ih =>
    cases h with
    | last hp hn =>
      refine (fetchPage_ensures hp s).bind ?_
      rintro p s' rfl
      split
      · next ha => exact Task.ensures_pure (by simp [eventsOf, requested, ha])
      · next ha =>
        rw [hn]
        exact Task.ensures_pure (by simp [eventsOf, requested])
    | @more _ p next ps hp hn hl =>
      refine (fetchPage_ensures hp s).bind ?_
      rintro p s' rfl
      split
      · next ha => exact Task.ensures_pure (by simp [eventsOf, requested, ha])
      · next ha =>
        rw [hn]
        refine (ih hl s').bind ?_
        rintro events s'' rfl
        exact Task.ensures_pure (by simp [eventsOf, requested, ha])

end Walk

section Order

/-- No event is dated before an earlier one of the list. -/
def Ordered (events : List Event) : Prop :=
  events.Pairwise fun a b =>
    ∀ s t, a.dateTime = some s → b.dateTime = some t → t.before s = false

theorem ordered_iff {events : List Event} : Ordered events ↔ events.Pairwise fun a b =>
    a.dateTime.all fun s => b.dateTime.all fun t => !(t.before s) := by
  simp only [Ordered, Option.all_eq_true, Bool.not_eq_true']
  exact ⟨List.Pairwise.imp fun h s hs t ht => h s t hs ht,
    List.Pairwise.imp fun h s t hs ht => h s hs t ht⟩

instance {events : List Event} : Decidable (Ordered events) :=
  decidable_of_iff _ ordered_iff.symm

theorem isAfter_of_ordered {limit : Instant} {a b : Event} (ha : Event.isAfter limit a = true)
    (hab : ∀ s t, a.dateTime = some s → b.dateTime = some t → t.before s = false) {date : Instant}
    (hb : b.dateTime = some date) : limit.before date = true := by
  unfold Event.isAfter at ha
  cases hs : a.dateTime with
  | none => simp [hs] at ha
  | some s =>
    rw [hs] at ha
    exact Instant.before_of_before_of_not ha (hab s date hs hb)

/-- In an ordered listing only events after the limit are not requested. -/
theorem before_of_notMem_requested {limit : Instant} {ps : List Page} (ho : Ordered (eventsOf ps))
    {e : Event} (he : e ∈ eventsOf ps) (hn : e ∉ eventsOf (requested limit ps)) {date : Instant}
    (hd : e.dateTime = some date) : limit.before date = true := by
  induction ps with
  | nil => simp [eventsOf] at he
  | cons p ps ih =>
    rw [eventsOf_cons] at ho he
    obtain ⟨-, hrest, hcross⟩ := List.pairwise_append.mp ho
    by_cases ha : p.events.any (Event.isAfter limit) = true
    · have hp : e ∉ p.events := by simpa [eventsOf, requested, ha] using hn
      have he := (List.mem_append.mp he).resolve_left hp
      obtain ⟨a, hm, ha⟩ := List.any_eq_true.mp ha
      exact isAfter_of_ordered ha (hcross a hm e he) hd
    · rw [requested, if_neg ha, eventsOf_cons] at hn
      obtain ⟨hp, hn⟩ := not_or.mp (mt List.mem_append.mpr hn)
      exact ih hrest ((List.mem_append.mp he).resolve_left hp) hn

end Order

end Listing

end GroupCalendar
