import GroupCalendar.Proofs.Event.Identity

/-! # Dates of stored events

The date of an event is read from the text under the name of dates, and from nothing else. An event
without a date has no text there, or an empty one.
-/

namespace GroupCalendar.Event

variable {item : Item} {e : Event}

theorem set_dateTime {f : Attribute.Field Event} (hf : f ∈ fields Attribute.decoding)
    {v : Attribute} {e e' : Event} (h : f.set v e = .ok e') :
    if f.name = "dateTime" then decodeDate Attribute.decoding v = .ok e'.dateTime
    else e'.dateTime = e.dateTime := by
  simp only [fields, List.mem_cons, List.not_mem_nil, or_false] at hf
  rcases hf with rfl | rfl | rfl | rfl | rfl | rfl | rfl | rfl | rfl | rfl | rfl
  all_goals
    obtain ⟨x, hx, h⟩ := Record.bind_eq_ok h
    cases h
  case inr.inr.inr.inr.inr.inr.inl => exact hx
  all_goals rfl

theorem decodeDate_text (s : String) :
    decodeDate Attribute.decoding (.text s) =
      if s.isEmpty then .ok none
      else (readStoredDate s).map some |>.mapError fun e => .invalid e.message := by
  have hoption : Attribute.decoding.option Attribute.decoding.text (.text s) = .ok (some s) := rfl
  rw [decodeDate, hoption]
  change (if s.isEmpty then _ else _) = _
  split
  · rfl
  · cases readStoredDate s <;> rfl

theorem decodeDate_eq_ok {v : Attribute} {date : Option Instant}
    (h : decodeDate Attribute.decoding v = .ok date) :
    (∀ t, date = some t → ∃ s, v.text? = some s ∧ readStoredDate s = .ok t) ∧
      (date = none → ∀ s, v.text? = some s → s = "") := by
  cases v with
  | text s =>
    rw [decodeDate_text] at h
    split at h
    · next he =>
      cases h
      refine ⟨fun t ht => (by cases ht), fun _ s' hs => ?_⟩
      cases hs
      exact String.isEmpty_iff.mp he
    · cases hr : readStoredDate s with
      | error x =>
        rw [hr] at h
        cases h
      | ok t =>
        rw [hr] at h
        cases h
        refine ⟨fun t' ht => ⟨s, rfl, ?_⟩, fun hn => (by cases hn)⟩
        cases ht
        exact hr
  | null b =>
    cases b <;> cases h
    exact ⟨fun t ht => (by cases ht), fun _ s hs => (by cases hs)⟩
  | _ => cases h

/-- What the date of an event that was read says about its item. -/
theorem text?_of_dateTime (hs : Fields.Sorted item) (h : ofItem item = .ok e) :
    (∀ t, e.dateTime = some t →
      ∃ s, item.text? Catalogue.dateName = some s ∧ readStoredDate s = .ok t) ∧
      (e.dateTime = none → ∀ s, item.text? Catalogue.dateName = some s → s = "") := by
  obtain ⟨hset, -⟩ := Record.readNamed_eq_ok h
  have hdate := Record.setNamed_eq_ok Event.dateTime (decodeDate Attribute.decoding) "dateTime"
    (fun f hf hn v r r' hv => by simpa [hn] using set_dateTime hf hv)
    (fun f hf hn v r r' hv => by simpa [hn] using set_dateTime hf hv)
    (by simp [fields, Record.Field.mandatory, Record.Field.defaulted, Decoding.textField]) hs hset
  have htext : item.text? Catalogue.dateName =
      (Fields.get? "dateTime" item).bind Attribute.text? := rfl
  rw [htext]
  cases hv : Fields.get? "dateTime" item with
  | none =>
    rw [hv] at hdate
    refine ⟨fun t ht => ?_, fun _ s hs => by cases hs⟩
    rw [show e.dateTime = none from hdate] at ht
    cases ht
  | some v =>
    rw [hv] at hdate
    exact decodeDate_eq_ok hdate

end GroupCalendar.Event
