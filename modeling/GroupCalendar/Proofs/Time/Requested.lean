import GroupCalendar.Proofs.Time.RoundTrip

/-! # Reading a written date in a request

A request may name any instant. The text that the store would write for it is read in a request as
the instant with the fraction of its second dropped, whether its year has a sign or not.
-/

namespace GroupCalendar

namespace DateText

variable {width n : Nat} {c : Char} {p p' : Parts} {s rest : List Char}

section Digits

theorem le_of_fixedDigits : ∀ {value : Nat} {s : List Char},
    fixedDigits width value s = .ok (n, rest) → value ≤ n := by
  induction width with
  | zero =>
    rintro value s ⟨⟩
    exact Nat.le_refl _
  | succ width ih =>
    rintro value (_ | ⟨c, s⟩) h
    · cases h
    · rw [fixedDigits] at h
      split at h
      · next d hd =>
        have := ih h
        omega
      · cases h

/-- A run of digits goes on behind those that a fixed number of digits ends with. -/
theorem digitRun_of_fixedDigits (hn : n < 9223372036854775808) (more : Nat) :
    ∀ {count value : Nat} {s : List Char}, fixedDigits width value s = .ok (n, rest) →
      digitRun (width + more) count value s = digitRun more (count + width) n rest := by
  induction width with
  | zero =>
    rintro count value s h
    cases h
    rw [Nat.zero_add, Nat.add_zero]
  | succ width ih =>
    rintro count value (_ | ⟨c, s⟩) h
    · cases h
    · rw [fixedDigits] at h
      cases hc : digit? c with
      | none =>
        rw [hc] at h
        cases h
      | some d =>
        rw [hc] at h
        dsimp only at h
        have hle := le_of_fixedDigits h
        have hvalue : (value : Int) * 10 + d = (value * 10 + d : Nat) := by omega
        have hmem : ((value * 10 + d : Nat) : Int) < 9223372036854775808 := by omega
        rw [show width + 1 + more = width + more + 1 by omega, digitRun, hc]
        dsimp only
        rw [hvalue, if_pos hmem, ih h, Nat.add_assoc, Nat.add_comm 1 width]

/-- A run of digits ends before a character that is none. -/
theorem digitRun_cons (hc : digit? c = none) (most count : Nat) (n : Int) :
    digitRun most count n (c :: rest) = .ok (count, n, c :: rest) := by
  cases most with
  | zero => rfl
  | succ most => simp only [digitRun, hc]

theorem exists_padDigits (hw : 0 < width) (n : Nat) :
    ∃ c rest, (padDigits width n).toList = c :: rest ∧ c.isDigit = true := by
  have hlength := le_length_padDigits width n
  cases hdigits : (padDigits width n).toList with
  | nil =>
    rw [← String.length_toList, hdigits, List.length_nil] at hlength
    omega
  | cons c rest =>
    have hmem : c ∈ (padDigits width n).toList := by
      rw [hdigits]
      exact List.mem_cons_self
    exact ⟨c, rest, rfl, isDigit_of_mem_padDigits hmem⟩

/-- A padded number is read back before a character that is no digit. -/
theorem number_padDigits (hw : 0 < width) (h : n < 10 ^ width) (hn : n < 9223372036854775808)
    (hc : digit? c = none) (more : Nat) :
    number (width + more) ((padDigits width n).toList ++ c :: rest) =
      .ok (width, n, c :: rest) := by
  have hrun : digitRun (width + more) 0 0 ((padDigits width n).toList ++ c :: rest) =
      digitRun more (0 + width) n (c :: rest) :=
    digitRun_of_fixedDigits hn more (fixedDigits_padDigits hw (c :: rest) h)
  rw [digitRun_cons hc, Nat.zero_add] at hrun
  have hne : ((padDigits width n).toList ++ c :: rest).isEmpty = false := by simp
  have hcount : ¬ width = 0 := by omega
  rw [number, hne]
  exact (congrArg (· >>= _) hrun).trans (if_neg hcount)

/-- Padding as wide as all digits of the number are pads nothing more. -/
theorem exists_width (width n : Nat) :
    ∃ wide, width ≤ wide ∧ n < 10 ^ wide ∧ padDigits width n = padDigits wide n := by
  have hlength : 0 < (Nat.toDigits 10 n).length := by
    obtain ⟨c, rest, hdigits, -⟩ := IntegerRange.exists_toDigits n
    rw [hdigits]
    exact Nat.succ_pos _
  refine ⟨max width (Nat.toDigits 10 n).length, Nat.le_max_left .., ?_, ?_⟩
  · refine (Nat.length_toDigits_le_iff (by decide) ?_).mp (Nat.le_max_right ..)
    omega
  · have hpad : max width (Nat.toDigits 10 n).length - (Nat.toDigits 10 n).length =
        width - (Nat.toDigits 10 n).length := by omega
    rw [padDigits, padDigits, hpad]

end Digits

section Parts

theorem trimStart_cons (hc : Text.isBlank c = false) : Text.trimStart (c :: rest) = c :: rest :=
  List.dropWhile_cons_of_neg (by simp [hc])

theorem isBlank_of_isDigit (h : c.isDigit = true) : Text.isBlank c = false := by
  have hmem : 48 ≤ c.toNat ∧ c.toNat ≤ 57 := by
    rw [Char.isDigit, Bool.and_eq_true, decide_eq_true_eq, decide_eq_true_eq] at h
    exact h
  simp only [Text.isBlank, Bool.or_eq_false_iff, Bool.and_eq_false_iff, decide_eq_false_iff_not,
    beq_eq_false_iff_ne]
  omega

theorem trimStart_padDigits (hw : 0 < width) (n : Nat) :
    Text.trimStart ((padDigits width n).toList ++ rest) = (padDigits width n).toList ++ rest := by
  obtain ⟨c, digits, hdigits, hc⟩ := exists_padDigits hw n
  rw [hdigits, List.cons_append, trimStart_cons (isBlank_of_isDigit hc)]

/-- A number of two digits within the bounds is read back before a character that is no digit. -/
theorem bounded_padDigits {low high : Nat} (hlow : low ≤ n) (hhigh : n ≤ high) (h : n < 10 ^ 2)
    (hc : digit? c = none) :
    bounded low high ((padDigits 2 n).toList ++ c :: rest) = .ok (n, c :: rest) := by
  have hread : number 2 ((padDigits 2 n).toList ++ c :: rest) = .ok (2, n, c :: rest) :=
    number_padDigits (by decide) h (by omega) hc 0
  have hmem : ¬ ((n : Int) < low ∨ (high : Int) < n) := by omega
  rw [bounded, trimStart_padDigits (by decide)]
  exact (congrArg (· >>= _) hread).trans (if_neg hmem)

section Year

variable {digits : List Char} {count : Nat} {year : Int}

theorem signedYear_of_isDigit (hc : c.isDigit = true)
    (hread : number 4 (c :: digits) = .ok (count, year, rest))
    (hmem : ¬ (year < -2147483648 ∨ 2147483648 ≤ year)) :
    signedYear (c :: digits) = .ok (year, rest) := by
  have hminus : c ≠ '-' := by
    rintro rfl
    cases hc
  have hplus : c ≠ '+' := by
    rintro rfl
    cases hc
  rw [signedYear, trimStart_cons (isBlank_of_isDigit hc)]
  dsimp only
  split
  · next h => exact absurd (List.cons.inj h).1 hminus
  · next h => exact absurd (List.cons.inj h).1 hplus
  · exact (congrArg (· >>= _) hread).trans (if_neg hmem)

theorem signedYear_minus (hread : number digits.length digits = .ok (count, year, rest))
    (hmem : ¬ (-year < -2147483648 ∨ 2147483648 ≤ -year)) :
    signedYear ('-' :: digits) = .ok (-year, rest) := by
  have htrim : Text.trimStart ('-' :: digits) = '-' :: digits := rfl
  rw [signedYear, htrim]
  simp only [hread]
  exact if_neg hmem

theorem signedYear_plus (hread : number digits.length digits = .ok (count, year, rest))
    (hmem : ¬ (year < -2147483648 ∨ 2147483648 ≤ year)) :
    signedYear ('+' :: digits) = .ok (year, rest) := by
  have htrim : Text.trimStart ('+' :: digits) = '+' :: digits := rfl
  rw [signedYear, htrim]
  simp only [hread]
  exact if_neg hmem

/-- A year is read back with its sign before a character that is no digit. -/
theorem signedYear_yearText (hlow : -2147483648 ≤ year) (hhigh : year < 2147483648)
    (hc : digit? c = none) :
    signedYear ((Instant.yearText year).toList ++ c :: rest) = .ok (year, c :: rest) := by
  have hmem : ¬ (year < -2147483648 ∨ 2147483648 ≤ year) := by omega
  by_cases hfour : 0 ≤ year ∧ year ≤ 9999
  · have hyear : (year.toNat : Int) = year := Int.toNat_of_nonneg hfour.1
    have hread : number 4 ((padDigits 4 year.toNat).toList ++ c :: rest) =
        .ok (4, (year.toNat : Int), c :: rest) :=
      number_padDigits (by decide) (by omega) (by omega) hc 0
    obtain ⟨d, digits, hdigits, hd⟩ := exists_padDigits (show 0 < 4 by decide) year.toNat
    rw [hdigits, hyear] at hread
    rw [Instant.yearText_of_mem hfour, hdigits]
    exact signedYear_of_isDigit hd hread hmem
  · obtain ⟨wide, hwide, hn, hpad⟩ := exists_width 4 year.natAbs
    have hread : number (wide + (rest.length + 1))
        ((padDigits wide year.natAbs).toList ++ c :: rest) =
          .ok (wide, (year.natAbs : Int), c :: rest) :=
      number_padDigits (by omega) hn (by omega) hc (rest.length + 1)
    have hlength : ((padDigits wide year.natAbs).toList ++ c :: rest).length =
        wide + (rest.length + 1) := by
      rw [List.length_append, String.length_toList, length_padDigits (by omega) hn,
        List.length_cons]
    rw [← hlength] at hread
    rw [Instant.yearText, if_neg hfour, String.toList_append, hpad]
    by_cases hneg : year < 0
    · have hyear : -(year.natAbs : Int) = year := by omega
      have hsigned := signedYear_minus hread (by rwa [hyear])
      rw [hyear] at hsigned
      rw [if_pos hneg]
      exact hsigned
    · have hyear : (year.natAbs : Int) = year := by omega
      rw [hyear] at hread
      rw [if_neg hneg]
      exact signedYear_plus hread hmem

end Year

theorem readItems_cons {item : Item} {items : List Item} (h : item.read p s = .ok (p', rest)) :
    readItems (item :: items) p s = readItems items p' rest := by
  rw [readItems, h]
  rfl

theorem read_blanks (hc : Text.isBlank c = false) :
    Item.blanks.read p (c :: rest) = .ok (p, c :: rest) := by
  rw [Item.read, trimStart_cons hc]

theorem read_char : (Item.char c).read p (c :: rest) = .ok (p, rest) :=
  if_pos rfl

theorem read_oneOf {cs : List Char} (h : c ∈ cs) :
    (Item.oneOf cs).read p (c :: rest) = .ok (p, rest) :=
  if_pos h

theorem read_year {year : Int} (hlow : -2147483648 ≤ year) (hhigh : year < 2147483648)
    (hc : digit? c = none) :
    Item.year.read p ((Instant.yearText year).toList ++ c :: rest) =
      .ok ({ p with year }, c :: rest) := by
  rw [Item.read, signedYear_yearText hlow hhigh hc]
  rfl

/-- A part of two digits is read back before a character that is no digit. -/
theorem read_of_bounded {low high : Nat} {f : Nat → Parts} {item : Item}
    (hitem : ∀ s, item.read p s = bounded low high s >>= fun x => .ok (f x.1, x.2))
    (hlow : low ≤ n) (hhigh : n ≤ high) (h : n < 10 ^ 2) (hc : digit? c = none) :
    item.read p ((padDigits 2 n).toList ++ c :: rest) = .ok (f n, c :: rest) := by
  rw [hitem, bounded_padDigits hlow hhigh h hc]
  rfl

end Parts

end DateText

namespace Instant

open DateText

variable {t : Instant}

/-- A request is read as the instant whose text it holds, to the whole second. -/
theorem readRequestedDate_formatStoredDate (t : Instant) :
    readRequestedDate (formatStoredDate t) = .ok t.wholeSecond := by
  obtain ⟨d, hd, hn⟩ := t.exists_date
  have hyear := t.year_mem
  rw [hd] at hyear
  have hday := t.secondOfDay_lt
  have hleap := t.leap_le
  have hdash : digit? '-' = none := rfl
  have hmark : digit? 'T' = none := rfl
  have hcolon : digit? ':' = none := rfl
  have hzulu : digit? 'Z' = none := rfl
  have hdashBlank : Text.isBlank '-' = false := rfl
  have hcolonBlank : Text.isBlank ':' = false := rfl
  have hmonth := d.month_mem
  have hdays := d.day_mem
  have hhour : t.secondOfDay / 3600 ≤ 23 := by omega
  have hminute : t.secondOfDay / 60 % 60 ≤ 59 := by omega
  have hsecond : t.secondOfDay % 60 + t.leap ≤ 60 := by omega
  have hread : readItems requestedLayout {} (formatStoredDate t).toList =
      .ok (⟨d.year, d.month, d.day, t.secondOfDay / 3600, t.secondOfDay / 60 % 60,
        t.secondOfDay % 60 + t.leap, 0, 0⟩, []) := by
    rw [toList_formatStoredDate hd, requestedLayout]
    rw [readItems_cons (read_year (by omega) (by omega) hdash),
      readItems_cons (read_blanks hdashBlank), readItems_cons read_char,
      readItems_cons (read_of_bounded (f := fun n => { year := d.year, month := n })
        (fun _ => rfl) hmonth.1 hmonth.2 (month_lt d) hdash),
      readItems_cons (read_blanks hdashBlank), readItems_cons read_char,
      readItems_cons (read_of_bounded (f := fun n => { year := d.year, month := d.month, day := n })
        (fun _ => rfl) hdays.1 (day_le d) (day_lt d) hmark),
      readItems_cons (read_oneOf (by decide))]
    rw [readItems_cons (read_of_bounded (f := fun n => ⟨d.year, d.month, d.day, n, 0, 0, 0, 0⟩)
        (fun _ => rfl) (Nat.zero_le _) hhour (by omega) hcolon),
      readItems_cons (read_blanks hcolonBlank), readItems_cons read_char,
      readItems_cons (read_of_bounded
        (f := fun n => ⟨d.year, d.month, d.day, t.secondOfDay / 3600, n, 0, 0, 0⟩)
        (fun _ => rfl) (Nat.zero_le _) hminute (by omega) hcolon),
      readItems_cons (read_blanks hcolonBlank), readItems_cons read_char,
      readItems_cons (read_of_bounded
        (f := fun n => ⟨d.year, d.month, d.day, t.secondOfDay / 3600, t.secondOfDay / 60 % 60, n, 0,
          0⟩)
        (fun _ => rfl) (Nat.zero_le _) hsecond (by omega) hzulu)]
    rfl
  rw [readRequestedDate, readLayout, hread]
  exact instant_parts hd hn

end Instant

end GroupCalendar
