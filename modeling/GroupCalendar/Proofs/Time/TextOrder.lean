import GroupCalendar.Proofs.Time.Calendar
import GroupCalendar.Time.Dates
import Mathlib.Data.String.Basic
import Mathlib.Tactic.IntervalCases
import Mathlib.Tactic.Tauto

/-! # The order of date texts

Date texts are compared character by character, and the parts of a date stand in them from the
longest unit to the shortest, each with its own number of digits. For years of four digits the
order of the texts is therefore the order of the whole seconds they are written for.
-/

namespace GroupCalendar

section Aligned

variable {s s' t t' : String} {width n n' : Nat}

theorem lt_append_iff {a a' : List Char} : ∀ {b b' : List Char}, a.length = a'.length →
    (a ++ b < a' ++ b' ↔ a < a' ∨ a = a' ∧ b < b') := by
  induction a generalizing a' with
  | nil =>
    intro b b' h
    obtain rfl : a' = [] := List.length_eq_zero_iff.mp h.symm
    simp
  | cons c a ih =>
    intro b b' h
    cases a' with
    | nil => cases h
    | cons c' a' =>
      have ih : a ++ b < a' ++ b' ↔ a < a' ∨ a = a' ∧ b < b' := ih (Nat.succ.inj h)
      rw [List.cons_append, List.cons_append, List.cons_lt_cons_iff, List.cons_lt_cons_iff, ih,
        List.cons.injEq]
      tauto

/-- Texts of one length decide the order of what begins with them, unless they are equal. -/
theorem append_lt_append_iff (h : s.length = s'.length) :
    s ++ t < s' ++ t' ↔ s < s' ∨ s = s' ∧ t < t' := by
  rw [String.lt_iff_toList_lt, String.toList_append, String.toList_append, lt_append_iff h,
    ← String.lt_iff_toList_lt, ← String.lt_iff_toList_lt, String.toList_inj]

theorem append_lt_append_right_iff (h : s.length = s'.length) : s ++ t < s' ++ t ↔ s < s' := by
  rw [append_lt_append_iff h]
  exact ⟨fun h => h.elim id fun h => absurd h.2 (String.lt_irrefl t), .inl⟩

theorem digitChar_lt {d d' : Nat} (h : d < d') (hd : d' < 10) :
    Nat.digitChar d < Nat.digitChar d' := by
  interval_cases d' <;> interval_cases d <;> decide

theorem singleton_lt {c c' : Char} (h : c < c') : String.singleton c < String.singleton c' := by
  rw [String.lt_iff_toList_lt, String.toList_singleton, String.toList_singleton]
  exact List.cons_lt_cons_iff.mpr (.inl h)

theorem padDigits_one (h : n < 10) : padDigits 1 n = String.singleton (Nat.digitChar n) := by
  rw [padDigits, Nat.toDigits_of_lt_base h]
  rfl

/-- The last digit of a padded number stands behind the others. -/
theorem padDigits_succ (hw : 0 < width) :
    padDigits (width + 1) n =
      padDigits width (n / 10) ++ String.singleton (Nat.digitChar (n % 10)) := by
  apply String.toList_inj.mp
  rw [String.toList_append, padDigits, padDigits, String.toList_ofList, String.toList_ofList,
    String.toList_singleton]
  rcases Nat.lt_or_ge n 10 with hn | hn
  · obtain ⟨width, rfl⟩ := Nat.exists_eq_add_one.mpr hw
    rw [Nat.toDigits_of_lt_base hn, Nat.div_eq_of_lt hn, Nat.mod_eq_of_lt hn,
      Nat.toDigits_of_lt_base (Nat.zero_lt_succ 9)]
    simp [List.replicate_succ']
  · rw [Nat.toDigits_of_base_le (by decide) hn, List.length_append, List.length_singleton,
      Nat.add_sub_add_right, List.append_assoc]

theorem length_padDigits (hw : 0 < width) (h : n < 10 ^ width) :
    (padDigits width n).length = width := by
  have := (Nat.length_toDigits_le_iff (by decide) hw).mpr h
  rw [padDigits, String.length_ofList, List.length_append, List.length_replicate]
  omega

theorem le_length_padDigits (width n : Nat) : width ≤ (padDigits width n).length := by
  rw [padDigits, String.length_ofList, List.length_append, List.length_replicate]
  omega

theorem isDigit_of_mem_padDigits {c : Char} (h : c ∈ (padDigits width n).toList) :
    c.isDigit = true := by
  rw [padDigits, String.toList_ofList, List.mem_append, List.mem_replicate] at h
  rcases h with ⟨-, rfl⟩ | h
  · rfl
  · exact Nat.isDigit_of_mem_toDigits (Nat.zero_lt_succ 9) (Nat.le_refl 10) h

theorem div_ten_lt (h : n < 10 ^ (width + 1)) : n / 10 < 10 ^ width := by
  rw [Nat.div_lt_iff_lt_mul (by decide), ← Nat.pow_succ]
  exact h

/-- Of numbers of one width the greater has the greater digits. -/
theorem strictMonoOn_padDigits (hw : 0 < width) :
    StrictMonoOn (padDigits width) (Set.Iio (10 ^ width)) := by
  induction width, hw using Nat.le_induction with
  | base =>
    intro n hn n' hn' hlt
    rw [padDigits_one hn, padDigits_one hn']
    exact singleton_lt (digitChar_lt hlt hn')
  | succ width hw ih =>
    intro n hn n' hn' hlt
    have hdiv : n / 10 < 10 ^ width := div_ten_lt hn
    have hdiv' : n' / 10 < 10 ^ width := div_ten_lt hn'
    rw [padDigits_succ hw, padDigits_succ hw, append_lt_append_iff
      ((length_padDigits hw hdiv).trans (length_padDigits hw hdiv').symm)]
    rcases Nat.lt_or_ge (n / 10) (n' / 10) with hd | hd
    · exact .inl (ih hdiv hdiv' hd)
    · have he : n / 10 = n' / 10 := by omega
      exact .inr ⟨by rw [he], singleton_lt (digitChar_lt (by omega) (by omega))⟩

theorem padDigits_lt_iff (hw : 0 < width) (hn : n < 10 ^ width) (hn' : n' < 10 ^ width) :
    padDigits width n < padDigits width n' ↔ n < n' :=
  (strictMonoOn_padDigits hw).lt_iff_lt hn hn'

theorem padDigits_inj (hw : 0 < width) (hn : n < 10 ^ width) (hn' : n' < 10 ^ width) :
    padDigits width n = padDigits width n' ↔ n = n' :=
  (strictMonoOn_padDigits hw).injOn.eq_iff hn hn'

theorem append_padDigits_lt_iff (h : s.length = s'.length) (hw : 0 < width)
    (hn : n < 10 ^ width) (hn' : n' < 10 ^ width) :
    s ++ padDigits width n < s' ++ padDigits width n' ↔ s < s' ∨ s = s' ∧ n < n' := by
  rw [append_lt_append_iff h, padDigits_lt_iff hw hn hn']

theorem append_padDigits_inj (h : s.length = s'.length) (hw : 0 < width)
    (hn : n < 10 ^ width) (hn' : n' < 10 ^ width) :
    s ++ padDigits width n = s' ++ padDigits width n' ↔ s = s' ∧ n = n' := by
  rw [← padDigits_inj hw hn hn', ← String.toList_inj, String.toList_append, String.toList_append]
  refine ⟨fun he => ?_, fun he => by rw [he.1, he.2]⟩
  obtain ⟨hs, hd⟩ := List.append_inj he h
  exact ⟨String.toList_inj.mp hs, String.toList_inj.mp hd⟩

end Aligned

namespace Instant

variable {a b : Instant}

/-- The year has four digits and no sign. -/
def InFourDigits (t : Instant) : Prop :=
  0 ≤ t.date.1 ∧ t.date.1 ≤ 9999

instance (t : Instant) : Decidable t.InFourDigits :=
  inferInstanceAs (Decidable (0 ≤ t.date.1 ∧ t.date.1 ≤ 9999))

/-- One in a leap second. -/
def leap (t : Instant) : Nat :=
  if nanosPerSecond ≤ t.nanos then 1 else 0

theorem leap_le (t : Instant) : t.leap ≤ 1 := by
  simp only [leap]
  split <;> omega

theorem leap_mem (t : Instant) (h : t.leap = 1) : t.seconds % 60 = 59 := by
  simp only [leap] at h
  split at h
  · next hn => exact t.leap_ends_minute hn
  · cases h

/-- The instant with the fraction of its second dropped. -/
def wholeSecond (t : Instant) : Instant where
  seconds := t.seconds
  nanos := t.leap * nanosPerSecond
  seconds_mem := t.seconds_mem
  nanos_lt := by
    have := t.leap_le
    simp only [nanosPerSecond]
    omega
  leap_ends_minute h := t.leap_mem (by
    have := t.leap_le
    simp only [nanosPerSecond] at h
    omega)

theorem wholeSecond_before_iff :
    a.wholeSecond.before b.wholeSecond ↔
      a.seconds < b.seconds ∨ a.seconds = b.seconds ∧ a.leap < b.leap := by
  simp only [before, Bool.or_eq_true, Bool.and_eq_true, decide_eq_true_eq]
  simp only [wholeSecond, nanosPerSecond]
  omega

theorem timeText_eq (t : Instant) :
    t.timeText = padDigits 2 (t.secondOfDay / 3600) ++ ":" ++
      padDigits 2 (t.secondOfDay / 60 % 60) ++ ":" ++ padDigits 2 (t.secondOfDay % 60 + t.leap) :=
  rfl

theorem secondOfDay_lt (t : Instant) : t.secondOfDay < 86400 := by
  simp only [secondOfDay]
  omega

theorem secondOfDay_of_leap (t : Instant) (h : t.leap = 1) : t.secondOfDay % 60 = 59 := by
  have := t.leap_mem h
  simp only [secondOfDay]
  omega

theorem length_hourText (t : Instant) : (padDigits 2 (t.secondOfDay / 3600)).length = 2 := by
  have := t.secondOfDay_lt
  exact length_padDigits (by decide) (by omega)

theorem length_minuteText (t : Instant) :
    (padDigits 2 (t.secondOfDay / 60 % 60)).length = 2 :=
  length_padDigits (by decide) (by omega)

theorem length_timeText (t : Instant) : t.timeText.length = 8 := by
  have := t.secondOfDay_lt
  have := t.leap_le
  have hsecond : (padDigits 2 (t.secondOfDay % 60 + t.leap)).length = 2 :=
    length_padDigits (by decide) (by omega)
  rw [timeText_eq]
  simp only [String.length_append, length_hourText, length_minuteText, hsecond]
  rfl

theorem timeText_lt_iff :
    a.timeText < b.timeText ↔
      a.secondOfDay < b.secondOfDay ∨ a.secondOfDay = b.secondOfDay ∧ a.leap < b.leap := by
  have ha := a.secondOfDay_lt
  have hb := b.secondOfDay_lt
  have hla := a.leap_le
  have hlb := b.leap_le
  have hma := a.secondOfDay_of_leap
  have hmb := b.secondOfDay_of_leap
  rw [timeText_eq, timeText_eq,
    append_padDigits_lt_iff (by simp only [String.length_append, length_hourText,
      length_minuteText]) (by decide) (by omega) (by omega),
    append_lt_append_right_iff (by simp only [String.length_append, length_hourText,
      length_minuteText]),
    append_padDigits_lt_iff (by simp only [String.length_append, length_hourText]) (by decide)
      (by omega) (by omega),
    append_lt_append_right_iff (by simp only [length_hourText]),
    padDigits_lt_iff (by decide) (by omega) (by omega), String.append_left_inj,
    String.append_left_inj,
    append_padDigits_inj (by simp only [String.length_append, length_hourText]) (by decide)
      (by omega) (by omega),
    String.append_left_inj, padDigits_inj (by decide) (by omega) (by omega)]
  omega

theorem dateText_eq {d : Date} (hd : a.date = (d.year, d.month, d.day)) :
    a.dateText = yearText d.year ++ "-" ++ padDigits 2 d.month ++ "-" ++ padDigits 2 d.day := by
  rw [dateText, hd]

theorem yearText_of_mem {year : Int} (h : 0 ≤ year ∧ year ≤ 9999) :
    yearText year = padDigits 4 year.toNat :=
  if_pos h

theorem month_lt (d : Date) : d.month < 10 ^ 2 := by
  have := d.month_mem
  omega

theorem day_le (d : Date) : d.day ≤ 31 := by
  have h := d.day_mem.2
  have : daysInMonth d.year d.month ≤ 31 := by
    simp only [daysInMonth]
    split <;> first | omega | (split <;> omega)
  omega

theorem day_lt (d : Date) : d.day < 10 ^ 2 :=
  Nat.lt_of_le_of_lt (day_le d) (by decide)

/-- The date of an instant, with its day. -/
theorem exists_date (t : Instant) :
    ∃ d : Date, t.date = (d.year, d.month, d.day) ∧ d.dayNumber = t.day :=
  Date.partsOfDayNumber_spec t.day

theorem length_dateText (h : a.InFourDigits) : a.dateText.length = 10 := by
  obtain ⟨d, hd, -⟩ := a.exists_date
  rw [InFourDigits, hd] at h
  rw [dateText_eq hd, yearText_of_mem h]
  simp only [String.length_append]
  rw [length_padDigits (by decide) (by omega), length_padDigits (by decide) (month_lt d),
    length_padDigits (by decide) (day_lt d)]
  rfl

theorem dateText_lt_iff (ha : a.InFourDigits) (hb : b.InFourDigits) :
    a.dateText < b.dateText ↔ a.day < b.day := by
  obtain ⟨d, hd, hda⟩ := a.exists_date
  obtain ⟨e, he, heb⟩ := b.exists_date
  rw [InFourDigits, hd] at ha
  rw [InFourDigits, he] at hb
  have hy : d.year.toNat < 10 ^ 4 ∧ e.year.toNat < 10 ^ 4 := by omega
  have hyear : (padDigits 4 d.year.toNat).length = (padDigits 4 e.year.toNat).length := by
    rw [length_padDigits (by decide) hy.1, length_padDigits (by decide) hy.2]
  have hmonth : (padDigits 2 d.month).length = (padDigits 2 e.month).length := by
    rw [length_padDigits (by decide) (month_lt d), length_padDigits (by decide) (month_lt e)]
  rw [dateText_eq hd, dateText_eq he, yearText_of_mem ha, yearText_of_mem hb, ← hda, ← heb,
    Date.dayNumber_lt_iff,
    append_padDigits_lt_iff (by simp only [String.length_append, hyear, hmonth]) (by decide)
      (day_lt d) (day_lt e),
    append_lt_append_right_iff (by simp only [String.length_append, hyear, hmonth]),
    append_padDigits_lt_iff (by simp only [String.length_append, hyear]) (by decide)
      (month_lt d) (month_lt e),
    append_lt_append_right_iff hyear, padDigits_lt_iff (by decide) hy.1 hy.2,
    String.append_left_inj, String.append_left_inj,
    append_padDigits_inj (by simp only [String.length_append, hyear]) (by decide)
      (month_lt d) (month_lt e),
    String.append_left_inj, padDigits_inj (by decide) hy.1 hy.2, Date.Before]
  omega

theorem dateText_inj (ha : a.InFourDigits) (hb : b.InFourDigits) :
    a.dateText = b.dateText ↔ a.day = b.day := by
  refine ⟨fun h => ?_, fun h => by rw [dateText, dateText, date, date, h]⟩
  rcases Int.lt_trichotomy a.day b.day with hlt | heq | hgt
  · exact absurd (h ▸ (dateText_lt_iff ha hb).mpr hlt) (String.lt_irrefl _)
  · exact heq
  · exact absurd (h ▸ (dateText_lt_iff hb ha).mpr hgt) (String.lt_irrefl _)

end Instant

open Instant

/-- The texts of the store have one length. -/
theorem length_formatStoredDate {t : Instant} (h : t.InFourDigits) :
    (formatStoredDate t).length = 20 := by
  rw [formatStoredDate, toSeconds]
  simp only [String.length_append, length_dateText h, length_timeText]
  rfl

theorem le_length_formatStoredDate (t : Instant) : 20 ≤ (formatStoredDate t).length := by
  obtain ⟨d, hd, -⟩ := t.exists_date
  have hyear : 4 ≤ (yearText d.year).length := by
    rw [yearText]
    split
    · exact le_length_padDigits ..
    · rw [String.length_append]
      exact Nat.le_add_left_of_le (le_length_padDigits ..)
  have hmonth := le_length_padDigits 2 d.month
  have hday := le_length_padDigits 2 d.day
  have hmarks : "-".length = 1 ∧ "T".length = 1 ∧ "Z".length = 1 := ⟨rfl, rfl, rfl⟩
  rw [formatStoredDate, toSeconds, dateText_eq hd]
  simp only [String.length_append, length_timeText, hmarks]
  omega

/-- The order of the texts of the store is the order of the whole seconds. -/
theorem formatStoredDate_lt_iff {a b : Instant} (ha : a.InFourDigits) (hb : b.InFourDigits) :
    formatStoredDate a < formatStoredDate b ↔ a.wholeSecond.before b.wholeSecond := by
  have hdate : a.dateText.length = b.dateText.length := by
    rw [length_dateText ha, length_dateText hb]
  have hlength : (a.dateText ++ "T").length = (b.dateText ++ "T").length := by
    simp only [String.length_append, hdate]
  have htime : a.timeText.length = b.timeText.length := by
    rw [length_timeText, length_timeText]
  rw [formatStoredDate, formatStoredDate, toSeconds, toSeconds,
    append_lt_append_right_iff (by simp only [String.length_append, hdate, htime]),
    append_lt_append_iff hlength, append_lt_append_right_iff hdate, String.append_left_inj,
    dateText_lt_iff ha hb, dateText_inj ha hb, timeText_lt_iff, wholeSecond_before_iff]
  simp only [day, secondOfDay]
  omega

/-- The text of any other year begins with a sign. -/
theorem exists_sign {t : Instant} (h : ¬ t.InFourDigits) :
    ∃ rest, (formatStoredDate t).toList = (if t.date.1 < 0 then '-' else '+') :: rest := by
  obtain ⟨d, hd, -⟩ := t.exists_date
  rw [InFourDigits, hd] at h
  have hyear : yearText d.year =
      (if d.year < 0 then "-" else "+") ++ padDigits 4 d.year.natAbs := if_neg h
  rw [formatStoredDate, toSeconds, dateText_eq hd, hyear, hd]
  simp only [String.toList_append, List.append_assoc]
  split
  · exact ⟨_, rfl⟩
  · exact ⟨_, rfl⟩

theorem exists_digit {t : Instant} (h : t.InFourDigits) :
    ∃ c rest, (formatStoredDate t).toList = c :: rest ∧ '0' ≤ c := by
  obtain ⟨d, hd, -⟩ := t.exists_date
  rw [InFourDigits, hd] at h
  rw [formatStoredDate, toSeconds, dateText_eq hd, yearText_of_mem h]
  simp only [String.toList_append, List.append_assoc]
  cases hyear : (padDigits 4 d.year.toNat).toList with
  | nil =>
    have hlength : (padDigits 4 d.year.toNat).length = 4 :=
      length_padDigits (by decide) (by omega)
    rw [← String.length_toList, hyear] at hlength
    cases hlength
  | cons c rest =>
    refine ⟨c, _, rfl, ?_⟩
    have hdigit := isDigit_of_mem_padDigits (hyear ▸ List.mem_cons_self :
      c ∈ (padDigits 4 d.year.toNat).toList)
    rw [Char.isDigit, Bool.and_eq_true, decide_eq_true_eq] at hdigit
    exact hdigit.1

/-- What sorts behind a year of four digits has one as well. -/
theorem inFourDigits_of_lt {a b : Instant} (ha : a.InFourDigits)
    (h : formatStoredDate a < formatStoredDate b) : b.InFourDigits := by
  by_contra hb
  obtain ⟨c, rest, htext, hc⟩ := exists_digit ha
  obtain ⟨rest', htext'⟩ := exists_sign hb
  rw [String.lt_iff_toList_lt, htext, htext', List.cons_lt_cons_iff] at h
  have hsign : (if b.date.1 < 0 then '-' else '+') < '0' := by
    split <;> decide
  rcases h with hlt | ⟨rfl, -⟩
  · exact absurd (hc.trans_lt (hlt.trans hsign)) (lt_irrefl _)
  · exact absurd (hc.trans_lt hsign) (lt_irrefl _)

theorem year_le_of_day_le {a b : Instant} (h : a.day ≤ b.day) : a.date.1 ≤ b.date.1 := by
  obtain ⟨d, hd, hda⟩ := a.exists_date
  obtain ⟨e, he, heb⟩ := b.exists_date
  rw [hd, he]
  by_contra hlt
  have := Date.dayNumber_lt_iff.mpr (.inl (Int.not_le.mp hlt) : e.Before d)
  omega

/-- An earlier second has the earlier text, if the later one has a year of four digits. -/
theorem formatStoredDate_lt_of_before {a b : Instant} (hb : b.InFourDigits)
    (h : a.wholeSecond.before b.wholeSecond) : formatStoredDate a < formatStoredDate b := by
  by_cases ha : a.InFourDigits
  · exact (formatStoredDate_lt_iff ha hb).mpr h
  · have hday : a.day ≤ b.day := by
      rw [wholeSecond_before_iff] at h
      simp only [day]
      omega
    have hyear : a.date.1 < 0 := by
      have := year_le_of_day_le hday
      simp only [InFourDigits] at ha hb
      omega
    obtain ⟨rest, hrest⟩ := exists_sign ha
    obtain ⟨c, rest', hrest', hc⟩ := exists_digit hb
    rw [String.lt_iff_toList_lt, hrest, hrest', if_pos hyear]
    exact List.cons_lt_cons_iff.mpr (.inl (lt_of_lt_of_le (by decide) hc))

/-- What is before a whole second is so by whole seconds. -/
theorem wholeSecond_before_of_before {a b : Instant} (hb : b.wholeSecond = b)
    (h : a.before b) : a.wholeSecond.before b.wholeSecond := by
  have hnanos : b.leap * nanosPerSecond = b.nanos := congrArg Instant.nanos hb
  have hleap := b.leap_le
  simp only [before, Bool.or_eq_true, Bool.and_eq_true, decide_eq_true_eq] at h
  rw [wholeSecond_before_iff]
  rcases h with hs | ⟨hs, hn⟩
  · exact .inl hs
  · refine .inr ⟨hs, ?_⟩
    have ha : a.leap = 0 := if_neg (by
      simp only [nanosPerSecond] at hnanos ⊢
      omega)
    simp only [nanosPerSecond] at hnanos
    omega

end GroupCalendar
