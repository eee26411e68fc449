import GroupCalendar.Proofs.Number.Numeral
import GroupCalendar.Proofs.Time.TextOrder

/-! # Reading a date that was written

The text that the store writes for an instant is read as the instant with the fraction of its
second dropped. A text that the store writes and that can be read has a year of four digits.
-/

namespace GroupCalendar

namespace DateText

variable {width n value d : Nat} {c : Char} {s rest : List Char}

/-- One more digit is read behind those read so far. -/
theorem fixedDigits_succ (hd : digit? c = some d) : ∀ {value : Nat} {s : List Char},
    fixedDigits width value s = .ok (n, c :: rest) →
      fixedDigits (width + 1) value s = .ok (n * 10 + d, rest) := by
  induction width with
  | zero =>
    rintro value s h
    cases h
    simp only [fixedDigits, hd]
  | succ width ih =>
    rintro value (_ | ⟨c', s⟩) h
    · cases h
    · rw [fixedDigits] at h ⊢
      cases hc : digit? c' with
      | none =>
        rw [hc] at h
        cases h
      | some d' =>
        rw [hc] at h
        exact ih h

/-- A padded number is read back, whatever stands behind it. -/
theorem fixedDigits_padDigits (hw : 0 < width) : ∀ {n : Nat} (rest : List Char), n < 10 ^ width →
    fixedDigits width 0 ((padDigits width n).toList ++ rest) = .ok (n, rest) := by
  induction width, hw using Nat.le_induction with
  | base =>
    intro n rest h
    rw [padDigits_one h, String.toList_singleton, List.singleton_append]
    simp only [fixedDigits, digit?_digitChar h, Nat.zero_mul, Nat.zero_add]
  | succ width hw ih =>
    intro n rest h
    rw [padDigits_succ hw, String.toList_append, String.toList_singleton, List.append_assoc,
      List.singleton_append,
      fixedDigits_succ (digit?_digitChar (Nat.mod_lt n (by decide))) (ih _ (div_ten_lt h)),
      Nat.mul_comm, Nat.div_add_mod]

theorem fixedChar_cons {cs : List Char} (h : c ∈ cs) : fixedChar cs (c :: rest) = .ok rest :=
  if_pos h

theorem length_le_octets (s : List Char) : s.length ≤ octets s := by
  suffices h : ∀ start : Nat, start + s.length ≤ s.foldl (fun n c => n + c.utf8Size) start by
    have := h 0
    rw [octets]
    omega
  induction s with
  | nil => exact fun _ => Nat.le_refl _
  | cons c s ih =>
    intro start
    have hc := c.utf8Size_pos
    have := ih (start + c.utf8Size)
    rw [List.foldl_cons, List.length_cons]
    omega

end DateText

namespace Instant

open DateText

variable {t : Instant} {d : Date}

theorem toList_formatStoredDate (hd : t.date = (d.year, d.month, d.day)) :
    (formatStoredDate t).toList =
      (yearText d.year).toList ++ '-' :: ((padDigits 2 d.month).toList ++
        '-' :: ((padDigits 2 d.day).toList ++ 'T' ::
          ((padDigits 2 (t.secondOfDay / 3600)).toList ++ ':' ::
            ((padDigits 2 (t.secondOfDay / 60 % 60)).toList ++ ':' ::
              ((padDigits 2 (t.secondOfDay % 60 + t.leap)).toList ++ ['Z']))))) := by
  rw [formatStoredDate, toSeconds, dateText_eq hd, timeText_eq]
  have hdash : "-".toList = ['-'] := rfl
  have hcolon : ":".toList = [':'] := rfl
  have hmark : "T".toList = ['T'] := rfl
  have hzulu : "Z".toList = ['Z'] := rfl
  simp only [String.toList_append, List.append_assoc, hdash, hcolon, hmark, hzulu,
    List.cons_append, List.nil_append]

theorem ofParts?_self (d : Date) : Date.ofParts? d.year d.month d.day = some d :=
  dif_pos ⟨d.month_mem, d.day_mem⟩

/-- The years of the first and the last instant bound those of all others. -/
theorem year_mem (t : Instant) : -262143 ≤ t.date.1 ∧ t.date.1 ≤ 262142 := by
  have hmem := t.seconds_mem
  let earliest : Instant := ⟨-8334601228800, 0, by omega, by decide, by decide⟩
  have hearliest : earliest.day ≤ t.day := by
    simp only [day, earliest]
    omega
  have hlatest : t.day ≤ latest.day := by
    simp only [day, latest]
    omega
  exact ⟨year_le_of_day_le hearliest, year_le_of_day_le hlatest⟩

/-- The parts of an instant in whole seconds make up that instant. -/
theorem instant_parts (hd : t.date = (d.year, d.month, d.day)) (hn : d.dayNumber = t.day) :
    Parts.instant ⟨d.year, d.month, d.day, t.secondOfDay / 3600,
      t.secondOfDay / 60 % 60, t.secondOfDay % 60 + t.leap, 0, 0⟩ = .ok t.wholeSecond := by
  have hyear := t.year_mem
  rw [hd] at hyear
  have hleap := t.leap_le
  have hmem := t.secondOfDay_of_leap
  have hsecond : (if t.secondOfDay % 60 + t.leap = 60 then (59, 0 + nanosPerSecond)
      else (t.secondOfDay % 60 + t.leap, 0)) =
        (t.secondOfDay % 60, t.leap * nanosPerSecond) := by
    split
    · rw [show t.leap = 1 by omega, show t.secondOfDay % 60 = 59 by omega, Nat.zero_add,
        Nat.one_mul]
    · rw [show t.leap = 0 by omega, Nat.zero_mul, Nat.add_zero]
  have hwall : d.dayNumber * 86400 + (t.secondOfDay / 3600 * 3600 +
      t.secondOfDay / 60 % 60 * 60 + t.secondOfDay % 60 : Nat) - 0 = t.seconds := by
    rw [hn, day, secondOfDay]
    omega
  have hrange : ¬ (d.year < -262143 ∨ 262142 < d.year) := by omega
  have hunix : Instant.ofUnix? t.seconds (t.leap * nanosPerSecond) = some t.wholeSecond :=
    dif_pos ⟨t.seconds_mem, t.wholeSecond.nanos_lt, t.wholeSecond.leap_ends_minute⟩
  simp only [Parts.instant, if_neg hrange, ofParts?_self, hsecond, hwall, hunix]
  exact if_neg (by decide)

/-- The store reads what it writes, to the whole second. -/
theorem readStoredDate_formatStoredDate (h : t.InFourDigits) :
    readStoredDate (formatStoredDate t) = .ok t.wholeSecond := by
  obtain ⟨d, hd, hn⟩ := t.exists_date
  have hyear : 0 ≤ d.year ∧ d.year ≤ 9999 := by
    rw [InFourDigits, hd] at h
    exact h
  have hnonneg : (d.year.toNat : Int) = d.year := Int.toNat_of_nonneg hyear.1
  have hy : d.year.toNat < 10 ^ 4 := by omega
  have hday := t.secondOfDay_lt
  have hleap := t.leap_le
  have hlength : ¬ octets (formatStoredDate t).toList < 19 := by
    have := length_le_octets (formatStoredDate t).toList
    rw [String.length_toList, length_formatStoredDate h] at this
    omega
  have hvalid : (Date.ofParts? d.year d.month d.day).isNone = false := by
    rw [ofParts?_self]
    rfl
  have hhour : t.secondOfDay / 3600 < 10 ^ 2 := by omega
  have hminute : t.secondOfDay / 60 % 60 < 10 ^ 2 := by omega
  have hsecond : t.secondOfDay % 60 + t.leap < 10 ^ 2 := by omega
  have hclock : ¬ (23 < t.secondOfDay / 3600 ∨ 59 < t.secondOfDay / 60 % 60 ∨
      60 < t.secondOfDay % 60 + t.leap) := by omega
  rw [readStoredDate, readFixed, if_neg hlength, toList_formatStoredDate hd, yearText_of_mem hyear]
  simp only [bind, Except.bind, pure, Except.pure, fixedChar_cons (List.mem_cons_self),
    fixedDigits_padDigits (show 0 < 4 by decide) _ hy,
    fixedDigits_padDigits (show 0 < 2 by decide) _ (month_lt d),
    fixedDigits_padDigits (show 0 < 2 by decide) _ (day_lt d),
    fixedDigits_padDigits (show 0 < 2 by decide) _ hhour,
    fixedDigits_padDigits (show 0 < 2 by decide) _ hminute,
    fixedDigits_padDigits (show 0 < 2 by decide) _ hsecond, hnonneg, hvalid, hclock,
    Bool.false_eq_true, if_false]
  exact instant_parts hd hn

/-- The store cannot read a year with a sign. -/
theorem readStoredDate_of_not_inFourDigits (h : ¬ t.InFourDigits) :
    readStoredDate (formatStoredDate t) = .error .invalid := by
  obtain ⟨rest, hrest⟩ := exists_sign h
  have hsign : fixedDigits 4 0 (formatStoredDate t).toList = .error .invalid := by
    rw [hrest]
    split <;> rfl
  have hlength : ¬ octets (formatStoredDate t).toList < 19 := by
    have hoctets := length_le_octets (formatStoredDate t).toList
    rw [String.length_toList] at hoctets
    have := le_length_formatStoredDate t
    omega
  rw [readStoredDate, readFixed, if_neg hlength, hsign]
  rfl

theorem inFourDigits_of_read {t' : Instant} (h : readStoredDate (formatStoredDate t) = .ok t') :
    t.InFourDigits := by
  by_contra hn
  rw [readStoredDate_of_not_inFourDigits hn] at h
  cases h

end Instant

end GroupCalendar
