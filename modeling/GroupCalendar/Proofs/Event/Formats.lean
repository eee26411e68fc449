import GroupCalendar.Proofs.Event.RoundTrip
import GroupCalendar.Proofs.Time.StoredForm
import GroupCalendar.Store.Memory

/-! # Events in both formats

An event is written alike as an item and as JSON, and both are read as the event with its date in
whole seconds. The date is there if the event has one, so an index by date holds the dated events
and no others.
-/

namespace GroupCalendar.Event

open Store

/-- An index by date holds the items of the events that have a date. -/
theorem indexed_toItem {s : Schema} {q : Query} (hindex : q.index.isSome)
    (hsort : s.sortName q = some Catalogue.dateName) (e : Event) :
    s.indexed q e.toItem = e.dateTime.isSome := by
  obtain ⟨index, hindex⟩ := Option.isSome_iff_exists.mp hindex
  rw [Schema.indexed, hindex, hsort]
  dsimp only
  rw [dateText?_toItem, Option.isSome_map]

theorem isMatch_eq_false {s : Schema} {q : Query} {item : Item}
    (h : s.indexed q item = false) : s.isMatch q item = false := by
  rw [Schema.isMatch, h, Bool.and_false, Bool.false_and]

/-- An event whose date has a year of four digits is read back from both formats with its date in
whole seconds, where a leap second stays one. The date is written as its stored text, and only if
the event has one: an index by date does not show an undated event to any query. -/
theorem formats_read_back {e : Event} (h : ∀ t, e.dateTime = some t → t.InFourDigits) :
    (ofItem e.toItem = .ok e.stored ∧ ofJson e.toJson = .ok e.stored) ∧
    (Fields.get? Catalogue.dateName e.toItem =
        (e.dateTime.map fun t => .text (formatStoredDate t)) ∧
      Json.get? Catalogue.dateName e.toJson =
        e.dateTime.map fun t => .string (formatStoredDate t)) ∧
    ∀ (s : Schema) (q : Query), q.index.isSome → s.sortName q = some Catalogue.dateName →
      s.indexed q e.toItem = e.dateTime.isSome ∧
        (e.dateTime = none → s.isMatch q e.toItem = false) := by
  refine ⟨⟨ofItem_toItem h, decode_encode reads_json h⟩,
    ⟨get?_dateTime_encodeFields .., get?_dateTime_encodeFields ..⟩, fun s q hindex hsort => ?_⟩
  have hindexed := indexed_toItem hindex hsort e
  refine ⟨hindexed, fun hnone => isMatch_eq_false ?_⟩
  rw [hindexed, hnone]
  rfl

section Sample

/-- An event in a leap second, with a text beyond ASCII, an empty one, a host without a name and
an image. -/
def leapEvent : Event :=
  { id := "e", groupId := "a", title := "勉強会", dateTime := some inLeapSecond,
    venue := some { city := "Springfield" }, host := some {},
    images := [{ baseUrl := "https://img.example.org/1" }] }

theorem formats_read_back_leap :
    ofItem leapEvent.toItem = .ok leapEvent.stored ∧
      ofJson leapEvent.toJson = .ok leapEvent.stored ∧
      leapEvent.stored.dateTime = Instant.ofUnix? 1483228799 1000000000 := by
  have hyear : ∀ t, leapEvent.dateTime = some t → t.InFourDigits := by
    rintro t ⟨⟩
    decide
  obtain ⟨⟨hitem, hjson⟩, -⟩ := formats_read_back hyear
  exact ⟨hitem, hjson, by decide⟩

end Sample

end GroupCalendar.Event
