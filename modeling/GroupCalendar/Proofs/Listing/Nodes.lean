import GroupCalendar.Listing.Page
import GroupCalendar.Proofs.Json.Record

/-! # Nodes of a page

A page that is made of an answer holds the events of the edges in the answer, one for each edge and
in their order.
-/

namespace GroupCalendar

open Record (Sets bind_eq_ok)

namespace Listing

open Json

variable {x : Json} {p p' : Page} {group : String}

/-- The elements of a list. -/
def elements : Option Json → List Json
  | some (.array xs) => xs
  | _ => []

/-- The edges of an answer. -/
def edgesOf (x : Json) : List Json :=
  elements <| (((x.field? 0 "data").bind (field? 0 "events")).bind
    (field? 0 "unifiedEvents")).bind (field? 1 "edges")

/-- The event of an edge. -/
def eventOf (edge : Json) : Decoded Event :=
  decodeRecord "EventEdge" edgeFields {} edge

theorem Page.events_of_pageInfo (h : decodeRecord "PageInfo" pageInfoFields p x = .ok p') :
    p'.events = p.events := by
  refine decodeRecord_keeps (p := fun q : Page => q.events = p.events) ?_ h rfl
  intro f hf v q q' hset hq
  simp only [pageInfoFields, List.mem_cons, List.not_mem_nil, or_false] at hf
  rcases hf with rfl | rfl
  all_goals
    obtain ⟨y, -, hset⟩ := bind_eq_ok hset
    cases hset
    exact hq

/-- The events of a page are those of its edges. -/
theorem Page.forall₂_of_edges (hx : x.Ordered) (hp : p.events = [])
    (h : decodeRecord "UnifiedEvents" pageFields p x = .ok p') :
    List.Forall₂ (fun edge e => eventOf edge = .ok e) (elements (x.field? 1 "edges"))
      p'.events := by
  have hsets : Sets pageFields Page.events "edges" p p' (x.field? 1 "edges") := by
    refine decodeRecord_sets hx ?_ rfl (by decide) h
    intro f hf hn v q q' hset
    simp only [pageFields, List.mem_cons, List.not_mem_nil, or_false] at hf
    rcases hf with rfl | rfl
    · exact Page.events_of_pageInfo hset
    · exact absurd rfl hn
  cases hy : x.field? 1 "edges" with
  | none =>
    rw [hy] at hsets
    rw [show p'.events = [] from Eq.trans hsets hp]
    exact .nil
  | some y =>
    rw [hy] at hsets
    obtain ⟨f, hf, hn, q, q', -, hset, he⟩ := hsets
    simp only [pageFields, List.mem_cons, List.not_mem_nil, or_false] at hf
    rcases hf with rfl | rfl
    · exact absurd hn (by decide)
    · obtain ⟨events, hevents, hset⟩ := bind_eq_ok hset
      cases hset
      rw [he]
      cases y with
      | array edges => exact Record.forall₂_of_mapM hevents
      | _ => cases hevents

theorem exists_data (hx : x.Ordered) (h : Page.ofAnswer group x = .ok p) :
    ∃ y, x.field? 0 "data" = some y ∧
      decodeRecord "FutureEventsData" dataFields none y = .ok (some p) := by
  rw [Page.ofAnswer] at h
  split at h
  · cases h
  · next page errors ha =>
    cases h
    have hsets : Sets answerFields Answer.data "data" {} ⟨some (some p), errors⟩
        (x.field? 0 "data") := by
      refine decodeRecord_sets hx ?_ rfl (by decide) ha
      intro f hf hn v a a' hset
      simp only [answerFields, List.mem_cons, List.not_mem_nil, or_false] at hf
      rcases hf with rfl | rfl
      · exact absurd rfl hn
      · obtain ⟨messages, -, hset⟩ := bind_eq_ok hset
        cases hset
        rfl
    cases hy : x.field? 0 "data" with
    | none =>
      rw [hy] at hsets
      cases hsets
    | some y =>
      rw [hy] at hsets
      obtain ⟨f, hf, hn, a, a', -, hset, he⟩ := hsets
      simp only [answerFields, List.mem_cons, List.not_mem_nil, or_false] at hf
      rcases hf with rfl | rfl
      · obtain ⟨d, hd, hset⟩ := bind_eq_ok hset
        cases hset
        cases he
        exact ⟨y, rfl, decodeOption_eq_ok hd⟩
      · exact absurd hn (by decide)
  all_goals cases h

theorem exists_events (hx : x.Ordered)
    (h : decodeRecord "FutureEventsData" dataFields none x = .ok (some p)) :
    ∃ y, x.field? 0 "events" = some y ∧
      decodeRecord "GroupEvents" groupEventsFields {} y = .ok p := by
  obtain ⟨-, hnone⟩ | ⟨y, hy, hset⟩ := decodeRecord_singleton hx h
  · cases hnone
  · exact ⟨y, hy, decodeOption_eq_ok hset⟩

/-- A page holds the events of the edges of the answer that it is made of. -/
theorem Page.forall₂_of_ofAnswer (hx : x.Ordered) (h : Page.ofAnswer group x = .ok p) :
    List.Forall₂ (fun edge e => eventOf edge = .ok e) (edgesOf x) p.events := by
  obtain ⟨data, hdata, h⟩ := exists_data hx h
  have hx := hx.field? hdata
  obtain ⟨events, hevents, h⟩ := exists_events hx h
  have hx := hx.field? hevents
  rw [edgesOf, hdata, Option.bind_some, hevents, Option.bind_some]
  obtain ⟨hnone, rfl⟩ | ⟨unified, hunified, h⟩ := decodeRecord_singleton hx h
  · rw [show events.field? 0 "unifiedEvents" = none from hnone]
    exact .nil
  · rw [show events.field? 0 "unifiedEvents" = some unified from hunified, Option.bind_some]
    exact Page.forall₂_of_edges (hx.field? hunified) rfl h

end Listing

end GroupCalendar
