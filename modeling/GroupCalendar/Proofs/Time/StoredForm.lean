import GroupCalendar.Proofs.Text.Order
import GroupCalendar.Proofs.Time.RoundTrip

/-! # The form of stored dates

The text of an instant in a year of four digits has digits and marks in fixed places, twenty octets
in all. The order of these octets is the order of the whole seconds, in which a leap second stands
between the second that it extends and the next minute, and the text is read as its whole second.
-/

namespace GroupCalendar

namespace DateText

variable {cs : List Char} {width n : Nat}

/-- A zero for a digit, and every other character for itself. -/
def mark (c : Char) : Char :=
  if c.isDigit then '0' else c

/-- The places of the digits and the marks in a date text of the store. -/
def storedShape : String := "0000-00-00T00:00:00Z"

/-- A text of the form `0000-00-00T00:00:00Z`, where a zero stands for any digit. -/
def IsStored (s : String) : Prop :=
  s.toList.map mark = storedShape.toList

theorem map_mark_padDigits (hw : 0 < width) (h : n < 10 ^ width) :
    (padDigits width n).toList.map mark = List.replicate width '0' := by
  rw [List.eq_replicate_iff]
  constructor
  · rw [List.length_map, String.length_toList, length_padDigits hw h]
  · intro c hc
    obtain ⟨d, hd, rfl⟩ := List.mem_map.mp hc
    exact if_pos (isDigit_of_mem_padDigits hd)

/-- A digit and a character of the shape are ASCII characters. -/
theorem IsStored.ascii {s : String} (h : IsStored s) : ∀ c ∈ s.toList, c.toNat < 0x80 := by
  intro c hc
  have hmark : mark c ∈ storedShape.toList := h ▸ List.mem_map_of_mem hc
  by_cases hd : c.isDigit = true
  · simp only [Char.isDigit, Bool.and_eq_true, decide_eq_true_eq, UInt32.le_iff_toNat_le] at hd
    exact Nat.lt_of_le_of_lt hd.2 (by decide)
  · rw [mark, if_neg hd] at hmark
    have hshape : storedShape.toList.all (fun c => c.toNat < 0x80) = true := by decide
    exact of_decide_eq_true (List.all_eq_true.mp hshape c hmark)

theorem IsStored.length_encode {s : String} (h : IsStored s) :
    (Text.Utf8.encode s).length = 20 := by
  rw [Text.Utf8.encode, Text.Utf8.encodeChars_ascii h.ascii, List.length_map,
    ← List.length_map mark, h]
  rfl

end DateText

open DateText Instant

variable {t : Instant}

theorem isStored_formatStoredDate (h : t.InFourDigits) : IsStored (formatStoredDate t) := by
  obtain ⟨d, hd, -⟩ := t.exists_date
  have hyear : 0 ≤ d.year ∧ d.year ≤ 9999 := by
    rw [InFourDigits, hd] at h
    exact h
  have hy : d.year.toNat < 10 ^ 4 := by omega
  have hday := t.secondOfDay_lt
  have hleap := t.leap_le
  rw [IsStored, toList_formatStoredDate hd, yearText_of_mem hyear]
  simp only [List.map_append, List.map_cons, List.map_nil]
  rw [map_mark_padDigits (by decide) hy, map_mark_padDigits (by decide) (month_lt d),
    map_mark_padDigits (by decide) (day_lt d), map_mark_padDigits (by decide) (by omega),
    map_mark_padDigits (by decide) (by omega), map_mark_padDigits (by decide) (by omega)]
  rfl

/-- Outside of the years of four digits the text begins with a sign. -/
theorem isStored_formatStoredDate_iff : IsStored (formatStoredDate t) ↔ t.InFourDigits := by
  constructor
  · intro h
    by_contra hn
    obtain ⟨rest, hrest⟩ := exists_sign hn
    rw [IsStored, hrest] at h
    split at h <;> cases h
  · exact isStored_formatStoredDate

/-- The dates that the store writes have one form, their octets are in the order of time, and each
is read as the second for which it was written. -/
theorem stored_dates_in_order {a b : Instant} (ha : a.InFourDigits) (hb : b.InFourDigits) :
    (IsStored (formatStoredDate a) ∧ (Text.Utf8.encode (formatStoredDate a)).length = 20) ∧
      (Text.Utf8.encode (formatStoredDate a) < Text.Utf8.encode (formatStoredDate b) ↔
        a.wholeSecond.before b.wholeSecond) ∧
      (formatStoredDate a < formatStoredDate b ↔ a.wholeSecond.before b.wholeSecond) ∧
      readStoredDate (formatStoredDate a) = .ok a.wholeSecond := by
  have hform := isStored_formatStoredDate ha
  have horder := formatStoredDate_lt_iff ha hb
  refine ⟨⟨hform, hform.length_encode⟩, ?_, horder, readStoredDate_formatStoredDate ha⟩
  rw [Text.Utf8.encode_lt_iff, horder]

section Sample

/-- Half a second into the leap second at the end of 2016, and the beginning of 2017. -/
def inLeapSecond : Instant := (ofUnix? 1483228799 1500000000).getD .epoch
def afterLeapSecond : Instant := (ofUnix? 1483228800 0).getD .epoch

theorem stored_dates_in_order_leap :
    formatStoredDate inLeapSecond = "2016-12-31T23:59:60Z" ∧
      (Text.Utf8.encode (formatStoredDate inLeapSecond)).length = 20 ∧
      formatStoredDate inLeapSecond < formatStoredDate afterLeapSecond ∧
      readStoredDate (formatStoredDate inLeapSecond) = .ok inLeapSecond.wholeSecond := by
  have ha : inLeapSecond.InFourDigits := by decide
  have hb : afterLeapSecond.InFourDigits := by decide
  obtain ⟨⟨-, hlength⟩, -, horder, hread⟩ := stored_dates_in_order ha hb
  exact ⟨by decide +kernel, hlength, horder.mpr (by decide), hread⟩

end Sample

end GroupCalendar
