import GroupCalendar.Proofs.Api.AnyCursor
import GroupCalendar.Proofs.Api.Unchanged
import GroupCalendar.Proofs.Encoding.Canonical

/-! # Cursors and keys

Cursors stand for keys of an id, a group and a date, one for one. Reading accepts the cursors that
are written and no other text, since Base64 and UTF-8 are read back from one form alone.
-/

namespace GroupCalendar

theorem Base64.fits_urlSafe : Base64.urlSafe.Fits := by decide +kernel

theorem Item.text?_eq_some_iff {item : Item} {name s : String} :
    item.text? name = some s ↔ item.get? name = some (.text s) := by
  rw [Item.text?, Option.bind_eq_some_iff]
  constructor
  · rintro ⟨a, h, ha⟩
    cases a with
    | text _ =>
      cases ha
      exact h
    | _ => cases ha
  · exact fun h => ⟨_, h, rfl⟩

namespace Cursor

open Text Catalogue

variable {key : Item} {name s id group date cursor : String} {part : List Char} {e : EventsError}

/-- A text as a part of a cursor: URL-safe Base64 of its UTF-8, padded. -/
def written (s : String) : List Char :=
  Base64.urlSafe.encodeChars (Utf8.encode s)

/-- The cursor of an id, a group and a date. -/
def layout (id group date : String) : String :=
  String.ofList (joinWith '.' [written id, written group, written date])

/-- The attributes of a key that a cursor keeps. -/
def names : List String :=
  [dateName, groupName, idName]

/-- A key cut to what a cursor keeps. -/
def cut (key : Item) : Item :=
  Fields.select key names

theorem cut_eq (hid : key.text? idName = some id) (hgroup : key.text? groupName = some group)
    (hdate : key.text? dateName = some date) :
    cut key = [(dateName, .text date), (groupName, .text group), (idName, .text id)] := by
  rw [Item.text?_eq_some_iff] at hid hgroup hdate
  rw [cut, names, Fields.select, List.filterMap_cons, hdate, List.filterMap_cons, hgroup,
    List.filterMap_cons, hid]
  rfl

/-- A part is read as the text that it is written for, and as no other one. -/
theorem decodePart_eq_ok_iff {a : Attribute} :
    decodePart part = .ok a ↔ ∃ s, a = .text s ∧ part = written s := by
  constructor
  · intro h
    rw [decodePart] at h
    split at h
    · next s hs =>
      cases h
      obtain ⟨bytes, hbytes, hutf⟩ := Option.bind_eq_some_iff.mp hs
      obtain rfl := Utf8.decode?_eq_some_iff.mp hutf
      have hpart : Base64.urlSafe.decode (Utf8.encodeChars part) = .ok (Utf8.encode s) := by
        cases hd : Base64.urlSafe.decode (Utf8.encodeChars part) with
        | error e =>
          rw [hd] at hbytes
          cases hbytes
        | ok bytes =>
          rw [hd] at hbytes
          exact congrArg _ (Option.some.inj hbytes)
      rw [Base64.decode_eq_ok_iff Base64.reads_urlSafe Base64.fits_urlSafe,
        ← Base64.encodeChars_octets Base64.reads_urlSafe fun c hc => Base64.mem_encodeChars hc,
        Utf8.encodeChars_inj] at hpart
      exact ⟨s, rfl, hpart⟩
    · cases h
  · rintro ⟨s, rfl, rfl⟩
    exact decodePart_encodeChars s

theorem encodePart_eq_ok_iff :
    encodePart key name = .ok part ↔ ∃ s, key.text? name = some s ∧ part = written s := by
  refine ⟨encodePart_eq_ok, ?_⟩
  rintro ⟨s, hs, rfl⟩
  rw [encodePart, hs]
  rfl

/-- The cursor of a key is laid out of its id, group and date. -/
theorem encode_eq_ok_iff : encode key = .ok cursor ↔ ∃ id group date,
    key.text? idName = some id ∧ key.text? groupName = some group ∧
      key.text? dateName = some date ∧ cursor = layout id group date := by
  constructor
  · intro h
    obtain ⟨idPart, hid, h⟩ := Record.bind_eq_ok h
    obtain ⟨groupPart, hgroup, h⟩ := Record.bind_eq_ok h
    obtain ⟨datePart, hdate, h⟩ := Record.bind_eq_ok h
    cases h
    obtain ⟨id, hid', rfl⟩ := encodePart_eq_ok_iff.mp hid
    obtain ⟨group, hgroup', rfl⟩ := encodePart_eq_ok_iff.mp hgroup
    obtain ⟨date, hdate', rfl⟩ := encodePart_eq_ok_iff.mp hdate
    refine ⟨id, group, date, hid', hgroup', hdate', ?_⟩
    rw [layout, List.append_assoc]
    rfl
  · rintro ⟨id, group, date, hid, hgroup, hdate, rfl⟩
    rw [encode, encodePart_eq_ok_iff.mpr ⟨id, hid, rfl⟩,
      encodePart_eq_ok_iff.mpr ⟨group, hgroup, rfl⟩, encodePart_eq_ok_iff.mpr ⟨date, hdate, rfl⟩,
      layout]
    refine congrArg (Except.ok ∘ String.ofList) ?_
    rw [List.append_assoc]
    rfl

/-- A text that is read is laid out of the id, the group and the date that it is read as. -/
theorem eq_layout_of_decode (h : decode cursor = .ok key) : ∃ id group date,
    key = [(dateName, .text date), (groupName, .text group), (idName, .text id)] ∧
      cursor = layout id group date := by
  rw [decode] at h
  split at h
  · next idPart groupPart datePart hsplit =>
    obtain ⟨_, hid, h⟩ := Record.bind_eq_ok h
    obtain ⟨_, hgroup, h⟩ := Record.bind_eq_ok h
    obtain ⟨_, hdate, h⟩ := Record.bind_eq_ok h
    cases h
    obtain ⟨id, rfl, rfl⟩ := decodePart_eq_ok_iff.mp hid
    obtain ⟨group, rfl, rfl⟩ := decodePart_eq_ok_iff.mp hgroup
    obtain ⟨date, rfl, rfl⟩ := decodePart_eq_ok_iff.mp hdate
    refine ⟨id, group, date, rfl, ?_⟩
    rw [layout, ← hsplit, joinWith_splitAt, String.ofList_toList]
  · cases h

theorem decode_of_encode (h : encode key = .ok cursor) : decode cursor = .ok (cut key) := by
  obtain ⟨id, group, date, hid, hgroup, hdate, hdecode⟩ := decode_encode h
  rw [hdecode, cut_eq hid hgroup hdate]

/-- The keys that are read from a text are those that are nothing but what it is written for. -/
theorem decode_eq_ok_iff :
    decode cursor = .ok key ↔ encode key = .ok cursor ∧ cut key = key := by
  constructor
  · intro h
    obtain ⟨id, group, date, rfl, rfl⟩ := eq_layout_of_decode h
    exact ⟨encode_eq_ok_iff.mpr ⟨id, group, date, rfl, rfl, rfl, rfl⟩, cut_eq rfl rfl rfl⟩
  · rintro ⟨h, hcut⟩
    rw [decode_of_encode h, hcut]

/-- A text that no key is written as is refused, and nothing else is. -/
theorem decode_eq_error_iff :
    decode cursor = .error e ↔ e = .invalidCursor ∧ ∀ key, encode key ≠ .ok cursor := by
  constructor
  · intro h
    refine ⟨decode_error h, fun key hkey => ?_⟩
    rw [decode_of_encode hkey] at h
    cases h
  · rintro ⟨rfl, hno⟩
    cases h : decode cursor with
    | error e => rw [decode_error h]
    | ok key => exact absurd (decode_eq_ok_iff.mp h).1 (hno key)

/-- A key has no cursor if it lacks one of the texts. -/
theorem exists_encode_eq_error_iff : (∃ e, encode key = .error e) ↔
    ∃ name ∈ names, ∀ s, key.get? name ≠ some (.text s) := by
  have hnone : ∀ {name}, (∀ s, key.get? name ≠ some (.text s)) ↔ key.text? name = none := by
    intro name
    simp only [ne_eq, ← Item.text?_eq_some_iff, Option.eq_none_iff_forall_ne_some]
  simp only [hnone]
  constructor
  · rintro ⟨e, h⟩
    by_contra hall
    push Not at hall
    obtain ⟨id, hid⟩ := Option.ne_none_iff_exists'.mp (hall idName (by decide))
    obtain ⟨group, hgroup⟩ := Option.ne_none_iff_exists'.mp (hall groupName (by decide))
    obtain ⟨date, hdate⟩ := Option.ne_none_iff_exists'.mp (hall dateName (by decide))
    obtain ⟨cursor, hcursor⟩ := exists_encode_eq_ok hid hgroup hdate
    rw [hcursor] at h
    cases h
  · rintro ⟨name, hname, hn⟩
    cases h : encode key with
    | error e => exact ⟨e, rfl⟩
    | ok cursor =>
      obtain ⟨id, group, date, hid, hgroup, hdate, -⟩ := encode_eq_ok_iff.mp h
      simp only [names, List.mem_cons, List.not_mem_nil, or_false] at hname
      obtain rfl | rfl | rfl := hname
      · exact absurd (hn.symm.trans hdate) nofun
      · exact absurd (hn.symm.trans hgroup) nofun
      · exact absurd (hn.symm.trans hid) nofun

/-- Keys of an id, a group and a date and their cursors determine each other, any key is read back
cut to those three, and what is no cursor is refused as such. -/
theorem cursors_keys (key : Item) (cursor : String) :
    (encode key = .ok cursor ↔ ∃ id group date, key.text? idName = some id ∧
      key.text? groupName = some group ∧ key.text? dateName = some date ∧
        cursor = layout id group date) ∧
    (encode key = .ok cursor → decode cursor = .ok (cut key)) ∧
    (decode cursor = .ok key ↔ encode key = .ok cursor ∧ cut key = key) ∧
    (∀ e, decode cursor = .error e ↔ e = .invalidCursor ∧ ∀ key, encode key ≠ .ok cursor) ∧
    ((∃ e, encode key = .error e) ↔ ∃ name ∈ names, ∀ s, key.get? name ≠ some (.text s)) :=
  ⟨encode_eq_ok_iff, decode_of_encode, decode_eq_ok_iff, fun _ => decode_eq_error_iff,
    exists_encode_eq_error_iff⟩

/-- A key with another attribute, an empty group and texts of two and three octets. -/
def foreignKey : Item :=
  [(dateName, .text "日"), (groupName, .text ""), (idName, .text "é"), ("title", .text "t")]

theorem cursors_keys_foreign :
    encode foreignKey = .ok "w6k=..5pel" ∧ decode "w6k=..5pel" = .ok (cut foreignKey) ∧
      cut foreignKey ≠ foreignKey ∧ encode (cut foreignKey) = .ok "w6k=..5pel" := by
  have h : encode foreignKey = .ok "w6k=..5pel" := by rfl
  have hdecode := (cursors_keys foreignKey "w6k=..5pel").2.1 h
  exact ⟨h, hdecode, nofun, ((cursors_keys (cut foreignKey) "w6k=..5pel").2.2.1.mp hdecode).1⟩

/-- The bits of the last symbol that belong to no octet are zero, and padding is complete. -/
example : decode "YR==.YQ==.YQ==" = .error .invalidCursor ∧
    decode "YQ.YQ==.YQ==" = .error .invalidCursor ∧
    decode "YQ==.YQ==.YQ==" =
      .ok [(dateName, .text "a"), (groupName, .text "a"), (idName, .text "a")] := by
  refine ⟨by rfl, by rfl, by rfl⟩

end Cursor

end GroupCalendar
