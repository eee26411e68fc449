import GroupCalendar.Api.Cursor
import GroupCalendar.Proofs.Encoding.Base64
import GroupCalendar.Proofs.Event.Identity
import GroupCalendar.Proofs.Text.Split

/-! # Reading back a cursor

A cursor is read as the key it was made of, cut to the id, the group and the date.
-/

namespace GroupCalendar

namespace Cursor

variable {key : Item} {name s : String} {part : List Char}

theorem encodePart_eq_ok (h : encodePart key name = .ok part) :
    ∃ s, key.text? name = some s ∧ part = Base64.urlSafe.encodeChars (Text.Utf8.encode s) := by
  rw [encodePart] at h
  split at h
  · next s hs =>
    cases h
    exact ⟨s, hs, rfl⟩
  · cases h

theorem point_notMem (s : String) :
    '.' ∉ Base64.urlSafe.encodeChars (Text.Utf8.encode s) :=
  Base64.point_notMem Base64.point_ne_symbol _

theorem decodePart_encodeChars (s : String) :
    decodePart (Base64.urlSafe.encodeChars (Text.Utf8.encode s)) = .ok (.text s) := by
  rw [decodePart, Base64.decode_text Base64.reads_urlSafe]
  simp only [Except.toOption, Option.bind_some, Text.Utf8.decode?_encode]

/-- A cursor is read as the id, the group and the date of its key. -/
theorem decode_encode {cursor : String} (h : encode key = .ok cursor) :
    ∃ id group date, key.text? Catalogue.idName = some id ∧
      key.text? Catalogue.groupName = some group ∧ key.text? Catalogue.dateName = some date ∧
      decode cursor = .ok [(Catalogue.dateName, .text date), (Catalogue.groupName, .text group),
        (Catalogue.idName, .text id)] := by
  obtain ⟨idPart, hid, h⟩ := Record.bind_eq_ok h
  obtain ⟨groupPart, hgroup, h⟩ := Record.bind_eq_ok h
  obtain ⟨datePart, hdate, h⟩ := Record.bind_eq_ok h
  cases h
  obtain ⟨id, hid', rfl⟩ := encodePart_eq_ok hid
  obtain ⟨group, hgroup', rfl⟩ := encodePart_eq_ok hgroup
  obtain ⟨date, hdate', rfl⟩ := encodePart_eq_ok hdate
  refine ⟨id, group, date, hid', hgroup', hdate', ?_⟩
  rw [decode, String.toList_ofList, List.append_assoc, List.cons_append,
    Text.splitAt_append (point_notMem _), Text.splitAt_append (point_notMem _),
    Text.splitAt_of_notMem (point_notMem _)]
  simp only [decodePart_encodeChars]
  rfl

end Cursor

end GroupCalendar
