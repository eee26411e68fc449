import GroupCalendar.Listing.Page
import GroupCalendar.Proofs.Json.Record

/-! # Answers without a page

An answer that cannot be read, that has no data, or that names no group is never taken for a page,
not even for an empty one. What is null or left out is so in whatever order the answer is written.
-/

namespace GroupCalendar

namespace Listing

open Json

/-- Every member of a name is null. -/
def LacksMember (name : String) (members : Fields Json) : Prop :=
  ∀ x, (name, x) ∈ members → x = .null

/-- The data are missing, or there is no group in them. -/
def LacksGroup (members : Fields Json) : Prop :=
  ∀ x, ("data", x) ∈ members → x = .null ∨ ∃ inner, x = .object inner ∧ LacksMember "events" inner

/-- An answer that holds no page. -/
inductive NoPage : Json → Prop
  | unreadable {x e} : decodeRecord "FutureEventsResponse" answerFields {} x = .error e → NoPage x
  | noData {x a} : decodeRecord "FutureEventsResponse" answerFields {} x = .ok a → a.data = none →
      NoPage x
  | noGroup {x a} : decodeRecord "FutureEventsResponse" answerFields {} x = .ok a →
      a.data = some none → NoPage x
  | absent {members} : LacksGroup members → NoPage (.object members)

theorem eq_none_of_lacksMember {inner : Fields Json} (h : LacksMember "events" inner)
    {d : Option Page}
    (hd : decodeRecord "FutureEventsData" dataFields none (.object inner) = .ok d) : d = none := by
  refine Record.setNamed_keeps (p := fun d => d = none) ?_ (setNamed_of_decodeRecord hd) rfl
  intro f hf x hx d d' hset _
  simp only [dataFields, List.mem_singleton] at hf
  subst hf
  obtain rfl := h x hx
  cases hset
  rfl

theorem data_of_lacksGroup {members : Fields Json} (h : LacksGroup members) {a : Answer}
    (ha : decodeRecord "FutureEventsResponse" answerFields {} (.object members) = .ok a) :
    a.data = none ∨ a.data = some none := by
  refine Record.setNamed_keeps (p := fun a => a.data = none ∨ a.data = some none) ?_
    (setNamed_of_decodeRecord ha) (.inl rfl)
  intro f hf x hx a a' hset hold
  simp only [answerFields, List.mem_cons, List.not_mem_nil, or_false] at hf
  rcases hf with rfl | rfl
  · obtain ⟨d, hd, hset⟩ := Record.bind_eq_ok hset
    cases hset
    rcases h x hx with rfl | ⟨inner, rfl, hinner⟩
    · cases hd
      exact .inl rfl
    · change some <$> decodeRecord "FutureEventsData" dataFields none (.object inner) = .ok d at hd
      cases hinner' : decodeRecord "FutureEventsData" dataFields none (.object inner) with
      | error e =>
        rw [hinner'] at hd
        cases hd
      | ok d' =>
        rw [hinner'] at hd
        cases hd
        exact .inr (congrArg some (eq_none_of_lacksMember hinner hinner'))
  · obtain ⟨errors, -, hset⟩ := Record.bind_eq_ok hset
    cases hset
    exact hold

/-- No page is made of an answer that holds none. -/
theorem NoPage.ofAnswer_ne_ok {x : Json} (h : NoPage x) (group : String) (page : Page) :
    Page.ofAnswer group x ≠ .ok page := by
  have hnone : ∀ {a : Answer},
      decodeRecord "FutureEventsResponse" answerFields {} x = .ok a →
      a.data = none ∨ a.data = some none → Page.ofAnswer group x ≠ .ok page := by
    intro a ha hdata hpage
    obtain ⟨data, errors⟩ := a
    unfold Page.ofAnswer at hpage
    rw [ha] at hpage
    rcases hdata with rfl | rfl
    · cases errors <;> cases hpage
    · cases hpage
  cases h with
  | unreadable he =>
    unfold Page.ofAnswer
    rw [he]
    nofun
  | noData ha hdata => exact hnone ha (.inl hdata)
  | noGroup ha hdata => exact hnone ha (.inr hdata)
  | @absent members h =>
    cases ha : decodeRecord "FutureEventsResponse" answerFields {} (.object members) with
    | error e =>
      unfold Page.ofAnswer
      rw [ha]
      nofun
    | ok a => exact hnone ha (data_of_lacksGroup h ha)

/-- An answer holds no page exactly when none is made of it. -/
theorem noPage_iff {x : Json} : NoPage x ↔ (Page.ofAnswer "" x).toOption = none := by
  constructor
  · intro h
    cases hpage : Page.ofAnswer "" x with
    | error e => rfl
    | ok page => exact absurd hpage (h.ofAnswer_ne_ok "" page)
  · intro h
    cases ha : decodeRecord "FutureEventsResponse" answerFields {} x with
    | error e => exact .unreadable ha
    | ok a =>
      obtain ⟨data, errors⟩ := a
      match data with
      | none => exact .noData ha rfl
      | some none => exact .noGroup ha rfl
      | some (some page) =>
        unfold Page.ofAnswer at h
        rw [ha] at h
        cases h

instance : DecidablePred NoPage := fun _ => decidable_of_iff _ noPage_iff.symm

end Listing

end GroupCalendar
