import GroupCalendar.Proofs.Event.Accepted
import GroupCalendar.Proofs.Time.Requested
import Mathlib.Algebra.BigOperators.Intervals

/-! # Dates with an offset

A date text of a listing names a civil day, a time of that day, and how far the clocks there are
ahead of Universal Time. It is read as the instant at the second of the civil time, counted day by
day from 1970, less the offset. Texts that name one instant are stored as one text.
-/

namespace GroupCalendar

namespace Date

/-- The days from one first of January to a later one, year by year. -/
def daysOfYears (first last : Int) : Int :=
  ∑ k ∈ Finset.range (last - first).toNat, (daysInYear (first + k) : Int)

/-- The days of the months of a year that come before a month. -/
def daysOfMonths (year : Int) (month : Nat) : Int :=
  ∑ m ∈ Finset.Ico 1 month, (daysInMonth year m : Int)

/-- The days of all years and months between a date and the first of January 1970. -/
def daysSince1970 (d : Date) : Int :=
  daysOfYears 1970 d.year - daysOfYears d.year 1970 + daysOfMonths d.year d.month + (d.day - 1)

theorem daysOfYears_add (first : Int) (n : Nat) :
    daysOfYears first (first + n) = daysBeforeYear (first + n) - daysBeforeYear first := by
  have hn : (first + n - first).toNat = n := by omega
  rw [daysOfYears, hn]
  induction n with
  | zero => simp
  | succ n ih =>
    have hsucc := daysBeforeYear_succ (first + n)
    rw [Finset.sum_range_succ, ih (by omega), Nat.cast_succ, ← Int.add_assoc, hsucc]
    omega

theorem daysOfYears_of_le {first last : Int} (h : last ≤ first) : daysOfYears first last = 0 := by
  rw [daysOfYears, Int.toNat_of_nonpos (by omega), Finset.sum_range_zero]

theorem daysOfYears_sub (first last : Int) :
    daysOfYears first last - daysOfYears last first =
      daysBeforeYear last - daysBeforeYear first := by
  rcases Int.le_total first last with h | h
  · obtain ⟨n, rfl⟩ := Int.le.dest h
    rw [daysOfYears_add, daysOfYears_of_le h, Int.sub_zero]
  · obtain ⟨n, rfl⟩ := Int.le.dest h
    rw [daysOfYears_add, daysOfYears_of_le h]
    omega

theorem daysOfMonths_eq (year : Int) {month : Nat} (h : 1 ≤ month) :
    daysOfMonths year month = daysBeforeMonth year month := by
  induction month, h using Nat.le_induction with
  | base => rfl
  | succ month h ih =>
    rw [daysOfMonths] at ih ⊢
    rw [Finset.sum_Ico_succ_top h, ih, daysBeforeMonth_succ, Nat.cast_add]

/-- The number of a date counts the days since 1970. -/
theorem dayNumber_eq_daysSince1970 (d : Date) : d.dayNumber = d.daysSince1970 := by
  have hepoch : daysBeforeYear 1970 = epochDays := by decide
  rw [daysSince1970, daysOfYears_sub, daysOfMonths_eq d.year d.month_mem.1, hepoch, dayNumber]
  omega

end Date

/-- How far clocks are ahead of Universal Time or behind it. -/
structure Offset where
  ahead : Bool
  hours : Nat
  minutes : Nat
  hours_lt : hours < 24
  minutes_lt : minutes < 60

namespace Offset

def text (z : Offset) : String :=
  (if z.ahead then "+" else "-") ++ padDigits 2 z.hours ++ ":" ++ padDigits 2 z.minutes

def seconds (z : Offset) : Int :=
  let amount : Int := z.hours * 3600 + z.minutes * 60
  if z.ahead then amount else -amount

end Offset

/-- The second of a minute, with up to nine digits of its fraction. -/
structure SecondOfMinute where
  whole : Nat
  places : Nat
  fraction : Nat
  whole_lt : whole < 60
  places_le : places ≤ 9
  fraction_lt : fraction < 10 ^ places

namespace SecondOfMinute

def text (s : SecondOfMinute) : String :=
  padDigits 2 s.whole ++ if s.places = 0 then "" else "." ++ padDigits s.places s.fraction

def nanos (s : SecondOfMinute) : Nat :=
  s.fraction * 10 ^ (9 - s.places)

end SecondOfMinute

/-- What follows the minute in a date text. -/
inductive DateEnding where
  /-- `+09:00` -/
  | offset (z : Offset)
  /-- `:30.25+09:00` -/
  | second (s : SecondOfMinute) (z : Offset)
  /-- `:30.25Z` -/
  | zulu (s : SecondOfMinute)

namespace DateEnding

def text : DateEnding → String
  | .offset z => z.text
  | .second s z => ":" ++ s.text ++ z.text
  | .zulu s => ":" ++ s.text ++ "Z"

/-- The seconds from the civil minute on, less the offset. -/
def seconds : DateEnding → Int
  | .offset z => -z.seconds
  | .second s z => s.whole - z.seconds
  | .zulu s => s.whole

def nanos : DateEnding → Nat
  | .offset _ => 0
  | .second s _ | .zulu s => s.nanos

end DateEnding

/-- A civil day in a year of four digits and a time of that day, as a text names them. -/
structure DateWithOffset where
  date : Date
  hour : Nat
  minute : Nat
  ending : DateEnding
  year_mem : 0 ≤ date.year ∧ date.year ≤ 9999
  hour_lt : hour < 24
  minute_lt : minute < 60

namespace DateWithOffset

/-- `2025-04-15T18:00-05:00`, or with seconds. -/
def text (w : DateWithOffset) : String :=
  padDigits 4 w.date.year.toNat ++ "-" ++ padDigits 2 w.date.month ++ "-" ++
    padDigits 2 w.date.day ++ "T" ++ padDigits 2 w.hour ++ ":" ++ padDigits 2 w.minute ++
    w.ending.text

/-- The seconds since 1970. -/
def seconds (w : DateWithOffset) : Int :=
  w.date.daysSince1970 * 86400 + w.hour * 3600 + w.minute * 60 + w.ending.seconds

end DateWithOffset

namespace DateText

variable {p : Parts} {rest : List Char} {c : Char} {z : Offset} {s : SecondOfMinute}

section Offset

theorem toList_padDigits_two {n : Nat} (h : n < 100) :
    (padDigits 2 n).toList = [Nat.digitChar (n / 10), Nat.digitChar (n % 10)] := by
  rw [padDigits_succ (by decide), padDigits_one (by omega), String.toList_append,
    String.toList_singleton, String.toList_singleton]
  rfl

theorem twoDigits_padDigits {n : Nat} (h : n < 100) (rest : List Char) :
    twoDigits ((padDigits 2 n).toList ++ rest) = .ok (n / 10, n % 10, rest) := by
  rw [toList_padDigits_two h, List.cons_append, List.singleton_append]
  have hlength := length_le_octets ((n / 10).digitChar :: (n % 10).digitChar :: rest)
  rw [List.length_cons, List.length_cons] at hlength
  rw [twoDigits.eq_def, if_neg (by omega)]
  simp only [digit?_digitChar (show n / 10 < 10 by omega),
    digit?_digitChar (show n % 10 < 10 by omega)]

theorem skip_colon (separator : OffsetSeparator) (hc : c.isDigit = true) :
    separator.skip (':' :: c :: rest) = .ok (c :: rest) := by
  cases separator with
  | colon => rfl
  | loose =>
    have hcolon : c ≠ ':' := by
      rintro rfl
      cases hc
    have hkeep : List.dropWhile (fun c => c = ':' || Text.isBlank c) (c :: rest) = c :: rest :=
      List.dropWhile_cons_of_neg (by simp [hcolon, isBlank_of_isDigit hc])
    simp only [OffsetSeparator.skip]
    rw [List.dropWhile_cons_of_pos (by simp), hkeep]

theorem toList_offset (z : Offset) :
    z.text.toList = (if z.ahead then '+' else '-') ::
      ((padDigits 2 z.hours).toList ++ ':' :: (padDigits 2 z.minutes).toList) := by
  rw [Offset.text]
  cases z.ahead <;> simp [String.toList_append]

/-- An offset is read back, however its hours and minutes are kept apart. -/
theorem offset_text (separator : OffsetSeparator) (zulu : Bool) (z : Offset) :
    offset separator zulu z.text.toList = .ok (z.seconds, []) := by
  have hhours := z.hours_lt
  have hminutes := z.minutes_lt
  obtain ⟨c, digits, hdigits, hc⟩ := exists_padDigits (show 0 < 2 by decide) z.minutes
  have htwo := twoDigits_padDigits (show z.minutes < 100 by omega) []
  rw [List.append_nil] at htwo
  have hskip : separator.skip (':' :: (padDigits 2 z.minutes).toList) =
      .ok (padDigits 2 z.minutes).toList := by
    rw [hdigits]
    exact skip_colon separator hc
  have htens : ¬ 5 < z.minutes / 10 := by omega
  have hread : ∀ sign : Char, sign = '+' ∨ sign = '-' →
      offset separator zulu (sign :: ((padDigits 2 z.hours).toList ++
        ':' :: (padDigits 2 z.minutes).toList)) =
          let amount : Int := ((z.hours / 10 : Nat) * 10 + (z.hours % 10 : Nat)) * 3600 +
            ((z.minutes / 10 : Nat) * 10 + (z.minutes % 10 : Nat)) * 60
          .ok (if sign = '+' then amount else -amount, []) := by
    rintro sign (rfl | rfl)
    all_goals
      simp [offset, twoDigits_padDigits (show z.hours < 100 by omega), bind, Except.bind, hskip,
        htwo, htens, pure, Except.pure]
  have hamount : (((z.hours / 10 : Nat) * 10 + (z.hours % 10 : Nat)) * 3600 +
      ((z.minutes / 10 : Nat) * 10 + (z.minutes % 10 : Nat)) * 60 : Int) =
        z.hours * 3600 + z.minutes * 60 := by omega
  rw [toList_offset, Offset.seconds, hread _ (by cases z.ahead <;> simp), hamount]
  cases z.ahead <;> rfl

end Offset

section Fraction

/-- A fraction is read back in nanoseconds before a character that is no digit. -/
theorem fraction_padDigits {places n : Nat} (hplaces : 0 < places) (hle : places ≤ 9)
    (h : n < 10 ^ places) (hc : digit? c = none) :
    fraction ((padDigits places n).toList ++ c :: rest) =
      .ok (n * 10 ^ (9 - places), c :: rest) := by
  have hlt : n < 9223372036854775808 :=
    (h.trans_le (Nat.pow_le_pow_right (by decide) hle)).trans (by decide)
  have hread : number (places + (9 - places)) ((padDigits places n).toList ++ c :: rest) =
      .ok (places, n, c :: rest) := number_padDigits hplaces h hlt hc (9 - places)
  rw [Nat.add_sub_cancel' hle] at hread
  have hkeep : (c :: rest).dropWhile (fun c => (digit? c).isSome) = c :: rest :=
    List.dropWhile_cons_of_neg (by simp [hc])
  rw [fraction, hread]
  change Except.ok ((n : Int).toNat * 10 ^ (9 - places), List.dropWhile _ (c :: rest)) = _
  rw [hkeep, Int.toNat_natCast]

end Fraction

section Instants

/-- A time of a day in a year of four digits is an instant, wherever it is told. -/
theorem exists_instant {d : Date} {hour minute second nanos : Nat} {offset : Int}
    (hyear : 0 ≤ d.year ∧ d.year ≤ 9999) (hhour : hour < 24) (hminute : minute < 60)
    (hsecond : second < 60) (hnanos : nanos < nanosPerSecond) (hoffset : offset.natAbs < 86400) :
    ∃ t, Parts.instant ⟨d.year, d.month, d.day, hour, minute, second, nanos, offset⟩ = .ok t ∧
      t.seconds = d.dayNumber * 86400 + hour * 3600 + minute * 60 + second - offset ∧
      t.nanos = nanos := by
  obtain ⟨hfirst, hlast⟩ := Date.year_mem_iff.mp hyear
  have hbounds : Date.first.dayNumber = -719528 ∧ Date.last.dayNumber = 2932896 := by decide
  let t : Instant :=
    ⟨d.dayNumber * 86400 + (hour * 3600 + minute * 60 + second : Nat) - offset, nanos, by omega,
      by omega, by omega⟩
  refine ⟨t, ?_, by simp only [t]; omega, rfl⟩
  have hunix : Instant.ofUnix? (d.dayNumber * 86400 +
      (hour * 3600 + minute * 60 + second : Nat) - offset) nanos = some t :=
    Instant.ofUnix?_eq_some_iff.mpr ⟨rfl, rfl⟩
  have hrange : ¬ (d.year < -262143 ∨ 262142 < d.year) := by omega
  simp only [Parts.instant, if_neg hrange, Instant.ofParts?_self,
    if_neg (show ¬ second = 60 by omega), if_neg (show ¬ 86400 ≤ offset.natAbs by omega), hunix]
  rfl

end Instants

end DateText

namespace DateWithOffset

open DateText

variable {w : DateWithOffset} {c : Char} {rest : List Char}

theorem toList_text (w : DateWithOffset) : w.text.toList =
    (padDigits 4 w.date.year.toNat).toList ++ '-' :: ((padDigits 2 w.date.month).toList ++
      '-' :: ((padDigits 2 w.date.day).toList ++ 'T' :: ((padDigits 2 w.hour).toList ++
        ':' :: ((padDigits 2 w.minute).toList ++ w.ending.text.toList)))) := by
  have hdash : "-".toList = ['-'] := rfl
  have hcolon : ":".toList = [':'] := rfl
  have hmark : "T".toList = ['T'] := rfl
  simp only [text, String.toList_append, List.append_assoc, hdash, hcolon, hmark,
    List.cons_append, List.nil_append]

/-- What is read up to the minute. -/
def parts (w : DateWithOffset) : Parts :=
  { year := w.date.year, month := w.date.month, day := w.date.day, hour := w.hour,
    minute := w.minute }

/-- Up to the minute a listing is read alike, whatever follows. -/
theorem readItems_listed (hending : w.ending.text.toList = c :: rest) (hc : digit? c = none) :
    readItems listedLayout {} w.text.toList = readItems [.offset] w.parts (c :: rest) := by
  have hyear := w.year_mem
  have hmonth := w.date.month_mem
  have hday := w.date.day_mem
  have hhour := w.hour_lt
  have hminute := w.minute_lt
  have hdash : digit? '-' = none := rfl
  have hmark : digit? 'T' = none := rfl
  have hcolon : digit? ':' = none := rfl
  rw [toList_text, hending, listedLayout, ← Instant.yearText_of_mem hyear]
  rw [readItems_cons (read_year (by omega) (by omega) hdash), readItems_cons read_char,
    readItems_cons (read_of_bounded (f := fun n => { year := w.date.year, month := n })
      (fun _ => rfl) hmonth.1 hmonth.2 (Instant.month_lt w.date) hdash),
    readItems_cons read_char,
    readItems_cons (read_of_bounded
      (f := fun n => { year := w.date.year, month := w.date.month, day := n })
      (fun _ => rfl) hday.1 (Instant.day_le w.date) (Instant.day_lt w.date) hmark),
    readItems_cons read_char,
    readItems_cons (read_of_bounded
      (f := fun n => ⟨w.date.year, w.date.month, w.date.day, n, 0, 0, 0, 0⟩)
      (fun _ => rfl) (Nat.zero_le _) (Nat.le_of_lt_succ hhour) (by omega) hcolon),
    readItems_cons read_char,
    readItems_cons (read_of_bounded
      (f := fun n => ⟨w.date.year, w.date.month, w.date.day, w.hour, n, 0, 0, 0⟩)
      (fun _ => rfl) (Nat.zero_le _) (Nat.le_of_lt_succ hminute) (by omega) hc)]
  rfl

/-- An offset begins with its sign. -/
theorem exists_sign (z : Offset) : ∃ c rest, z.text.toList = c :: rest ∧
    digit? c = none ∧ c ≠ '.' ∧ Text.isBlank c = false := by
  rw [toList_offset]
  cases z.ahead <;> exact ⟨_, _, rfl, rfl, by decide, rfl⟩

/-- A time without seconds is read by the layout of a listing. -/
theorem readLayout_offset {z : Offset} (hending : w.ending = .offset z) :
    readLayout listedLayout w.text.toList = Parts.instant { w.parts with offset := z.seconds } := by
  obtain ⟨c, rest, hz, hdigit, -, hblank⟩ := exists_sign z
  have hread : readItems [.offset] w.parts (c :: rest) =
      .ok ({ w.parts with offset := z.seconds }, []) := by
    have hoffset := offset_text .loose false z
    rw [hz] at hoffset
    rw [readItems, Item.read, trimStart_cons hblank, hoffset]
    rfl
  have htext : w.ending.text.toList = c :: rest := by rw [hending]; exact hz
  rw [readLayout, readItems_listed htext hdigit, hread]
  rfl

/-- A time with seconds is not in the layout of a listing. -/
theorem readLayout_second (hending : w.ending.text.toList = ':' :: rest) :
    readLayout listedLayout w.text.toList = .error .invalid := by
  rw [readLayout, readItems_listed hending rfl]
  rfl

/-- Behind the whole second stands a fraction, or what follows the second. -/
theorem second_or_fraction (s : SecondOfMinute) (rest : List Char) (hdigit : digit? c = none) :
    ∃ tail, s.text.toList ++ c :: rest = (padDigits 2 s.whole).toList ++ tail ∧
      ((tail = c :: rest ∧ s.nanos = 0) ∨
        ∃ digits, tail = '.' :: digits ∧ fraction digits = .ok (s.nanos, c :: rest)) := by
  by_cases hplaces : s.places = 0
  · have hlt := s.fraction_lt
    rw [hplaces] at hlt
    refine ⟨c :: rest, ?_, .inl ⟨rfl, ?_⟩⟩
    · rw [SecondOfMinute.text, if_pos hplaces, String.append_empty]
    · rw [SecondOfMinute.nanos, Nat.lt_one_iff.mp hlt, Nat.zero_mul]
  · refine ⟨'.' :: ((padDigits s.places s.fraction).toList ++ c :: rest), ?_, .inr ⟨_, rfl, ?_⟩⟩
    · have hpoint : ".".toList = ['.'] := rfl
      rw [SecondOfMinute.text, if_neg hplaces, String.toList_append, String.toList_append, hpoint,
        List.append_assoc, List.append_assoc, List.singleton_append]
    · exact fraction_padDigits (Nat.pos_of_ne_zero hplaces) s.places_le s.fraction_lt hdigit

/-- A time with seconds is read by the form of the store. -/
theorem readFixed_second {s : SecondOfMinute} {zone : Int}
    (hending : w.ending.text.toList = ':' :: (s.text.toList ++ c :: rest))
    (hdigit : digit? c = none) (hpoint : c ≠ '.')
    (hzone : offset .colon true (c :: rest) = .ok (zone, [])) :
    readFixed w.text.toList =
      Parts.instant { w.parts with second := s.whole, nanos := s.nanos, offset := zone } := by
  have hyear := w.year_mem
  have hnonneg : (w.date.year.toNat : Int) = w.date.year := Int.toNat_of_nonneg hyear.1
  have hhour := w.hour_lt
  have hminute := w.minute_lt
  have hsecond := s.whole_lt
  have hvalid : (Date.ofParts? w.date.year w.date.month w.date.day).isNone = false := by
    rw [Instant.ofParts?_self]
    rfl
  have hclock : ¬ (23 < w.hour ∨ 59 < w.minute ∨ 60 < s.whole) := by omega
  obtain ⟨tail, htext, htail⟩ := second_or_fraction s rest hdigit
  rw [htext] at hending
  have hlength : ¬ octets w.text.toList < 19 := by
    have hle := length_le_octets w.text.toList
    have hyears := le_length_padDigits 4 w.date.year.toNat
    have hmonths := le_length_padDigits 2 w.date.month
    have hdays := le_length_padDigits 2 w.date.day
    have hhours := le_length_padDigits 2 w.hour
    have hminutes := le_length_padDigits 2 w.minute
    have hseconds := le_length_padDigits 2 s.whole
    simp only [toList_text, hending, List.length_append, List.length_cons,
      String.length_toList] at hle
    rw [toList_text, hending]
    omega
  rw [readFixed, if_neg hlength, toList_text, hending]
  simp only [bind, Except.bind, pure, Except.pure, fixedChar_cons (List.mem_cons_self),
    fixedDigits_padDigits (show 0 < 4 by decide) _ (show w.date.year.toNat < 10 ^ 4 by omega),
    fixedDigits_padDigits (show 0 < 2 by decide) _ (Instant.month_lt w.date),
    fixedDigits_padDigits (show 0 < 2 by decide) _ (Instant.day_lt w.date),
    fixedDigits_padDigits (show 0 < 2 by decide) _ (show w.hour < 10 ^ 2 by omega),
    fixedDigits_padDigits (show 0 < 2 by decide) _ (show w.minute < 10 ^ 2 by omega),
    fixedDigits_padDigits (show 0 < 2 by decide) _ (show s.whole < 10 ^ 2 by omega),
    hnonneg, hvalid, hclock, Bool.false_eq_true, if_false]
  obtain ⟨rfl, hnanos⟩ | ⟨digits, rfl, hfraction⟩ := htail
  · split
    · next h => exact absurd (List.cons.inj h).1 hpoint
    · rw [hzone, hnanos]
      rfl
  · simp only [hfraction, hzone]
    rfl

theorem natAbs_seconds_lt (z : Offset) : z.seconds.natAbs < 86400 := by
  have hhours := z.hours_lt
  have hminutes := z.minutes_lt
  simp only [Offset.seconds]
  split <;> omega

theorem nanos_lt (s : SecondOfMinute) : s.nanos < nanosPerSecond := by
  have hpow : 10 ^ s.places * 10 ^ (9 - s.places) = nanosPerSecond := by
    rw [← Nat.pow_add, Nat.add_sub_cancel' s.places_le]
  rw [SecondOfMinute.nanos, ← hpow]
  exact Nat.mul_lt_mul_of_pos_right s.fraction_lt (Nat.pow_pos (by decide))

/-- The instant of a time of a day in a year of four digits, told with some offset. -/
theorem exists_instant_of_parts (w : DateWithOffset) (second nanos : Nat) (zone : Int)
    (hsecond : second < 60) (hnanos : nanos < nanosPerSecond) (hzone : zone.natAbs < 86400)
    (hending : w.ending.seconds = second - zone) :
    ∃ t, Parts.instant { w.parts with second, nanos, offset := zone } = .ok t ∧
      t.seconds = w.seconds ∧ t.nanos = nanos := by
  obtain ⟨t, hread, hseconds, ht⟩ :=
    exists_instant w.year_mem w.hour_lt w.minute_lt hsecond hnanos hzone
  refine ⟨t, hread, ?_, ht⟩
  rw [hseconds, seconds, hending, Date.dayNumber_eq_daysSince1970]
  omega

theorem readListedDate?_of_second (hending : w.ending.text.toList = ':' :: rest) :
    readListedDate? w.text = (readFixed w.text.toList).toOption := by
  rw [readListedDate?, readLayout_second hending, readStoredDate]

/-- A date with an offset is read as the instant that it names. -/
theorem exists_read (w : DateWithOffset) : ∃ t, readListedDate? w.text = some t ∧
    t.seconds = w.seconds ∧ t.nanos = w.ending.nanos := by
  have hcolon : ":".toList = [':'] := rfl
  have hzulu : "Z".toList = ['Z'] := rfl
  cases hending : w.ending with
  | offset z =>
    obtain ⟨t, hread, hseconds, hnanos⟩ := w.exists_instant_of_parts 0 0 z.seconds
      (by decide) (by decide) (natAbs_seconds_lt z) (by rw [hending, DateEnding.seconds]; simp)
    refine ⟨t, ?_, hseconds, hnanos⟩
    have hlisted : Parts.instant { w.parts with offset := z.seconds } = .ok t := hread
    rw [readListedDate?, readLayout_offset hending, hlisted]
  | second s z =>
    obtain ⟨t, hread, hseconds, hnanos⟩ := w.exists_instant_of_parts s.whole s.nanos z.seconds
      s.whole_lt (nanos_lt s) (natAbs_seconds_lt z) (by rw [hending, DateEnding.seconds])
    refine ⟨t, ?_, hseconds, hnanos⟩
    obtain ⟨c, rest, hz, hdigit, hpoint, -⟩ := exists_sign z
    have hzone := offset_text .colon true z
    have htext : w.ending.text.toList = ':' :: (s.text.toList ++ c :: rest) := by
      rw [hending, DateEnding.text, String.toList_append, String.toList_append, hcolon, hz]
      rfl
    rw [hz] at hzone
    rw [readListedDate?_of_second htext, readFixed_second htext hdigit hpoint hzone, hread]
    rfl
  | zulu s =>
    obtain ⟨t, hread, hseconds, hnanos⟩ := w.exists_instant_of_parts s.whole s.nanos 0
      s.whole_lt (nanos_lt s) (by decide) (by rw [hending, DateEnding.seconds]; simp)
    refine ⟨t, ?_, hseconds, hnanos⟩
    have htext : w.ending.text.toList = ':' :: (s.text.toList ++ 'Z' :: []) := by
      rw [hending, DateEnding.text, String.toList_append, String.toList_append, hcolon, hzulu]
      rfl
    rw [readListedDate?_of_second htext, readFixed_second htext rfl (by decide) rfl, hread]
    rfl

/-- A date with an offset is read as the instant that it names, and the dates that name one
instant are stored as one text. -/
theorem dates_with_offset_read (w : DateWithOffset) :
    (∃ t, readListedDate? w.text = some t ∧ t.seconds = w.seconds ∧ t.nanos = w.ending.nanos) ∧
      ∀ v : DateWithOffset, v.seconds = w.seconds → v.ending.nanos = w.ending.nanos →
        (readListedDate? v.text).map formatStoredDate =
          (readListedDate? w.text).map formatStoredDate := by
  refine ⟨exists_read w, fun v hseconds hnanos => ?_⟩
  obtain ⟨t, hread, ht, hnanosw⟩ := exists_read w
  obtain ⟨u, hreadv, hu, hnanosv⟩ := exists_read v
  have hsame : u = t := Instant.ext_parts (by rw [hu, hseconds, ht])
    (by rw [hnanosv, hnanos, hnanosw])
  rw [hread, hreadv, hsame]

section Sample

/-- Half an hour before the end of the leap day, west of Greenwich. -/
def eveningSample : DateWithOffset where
  date := ⟨2024, 2, 29, by decide, by decide⟩
  hour := 23
  minute := 30
  ending := .offset ⟨false, 2, 0, by decide, by decide⟩
  year_mem := by decide
  hour_lt := by decide
  minute_lt := by decide

/-- The same instant, on the next day in the east. -/
def morningSample : DateWithOffset where
  date := ⟨2024, 3, 1, by decide, by decide⟩
  hour := 10
  minute := 30
  ending := .second ⟨0, 2, 0, by decide, by decide, by decide⟩ ⟨true, 9, 0, by decide, by decide⟩
  year_mem := by decide
  hour_lt := by decide
  minute_lt := by decide

theorem seconds_morningSample : morningSample.seconds = eveningSample.seconds := by
  rw [seconds, seconds, ← Date.dayNumber_eq_daysSince1970, ← Date.dayNumber_eq_daysSince1970]
  decide

theorem dates_with_offset_read_leap :
    eveningSample.text = "2024-02-29T23:30-02:00" ∧
    morningSample.text = "2024-03-01T10:30:00.00+09:00" ∧
    (readListedDate? "2024-03-01T10:30:00.00+09:00").map formatStoredDate =
      (readListedDate? "2024-02-29T23:30-02:00").map formatStoredDate ∧
    (readListedDate? "2024-02-29T23:30-02:00").map formatStoredDate =
      some "2024-03-01T01:30:00Z" := by
  have hevening : eveningSample.text = "2024-02-29T23:30-02:00" := by decide +kernel
  have hmorning : morningSample.text = "2024-03-01T10:30:00.00+09:00" := by decide +kernel
  obtain ⟨-, hsame⟩ := dates_with_offset_read eveningSample
  have hstored := hsame morningSample seconds_morningSample rfl
  rw [hevening, hmorning] at hstored
  exact ⟨hevening, hmorning, hstored, by decide +kernel⟩

end Sample

end DateWithOffset

end GroupCalendar
