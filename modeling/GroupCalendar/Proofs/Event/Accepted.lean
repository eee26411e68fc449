import GroupCalendar.Proofs.Event.Dated
import GroupCalendar.Proofs.Event.RoundTrip
import GroupCalendar.Proofs.Time.Duration
import GroupCalendar.Proofs.Time.StoredForm

/-! # Dates that are accepted

A date that is read is at most one day away from the day that its text names, for the offset moves
it. Without a sign the text names a year of four digits, so the instant lies in one as well, or on
the day before the first or after the last of these years. There the text of the store has a sign,
and what is written cannot be read again.
-/

namespace GroupCalendar

open DateText
open Record (bind_eq_ok)

namespace DateText

variable {p p' : Parts} {s rest : List Char}

section Digits

variable {c : Char} {d n count count' : Nat}

theorem digit?_lt (h : digit? c = some d) : d < 10 := by
  unfold digit? at h
  split at h
  · next hc =>
    cases h
    have hle : c.toNat ≤ 57 := hc.2
    have hzero : '0'.toNat = 48 := rfl
    omega
  · cases h

/-- So many digits make up a number below that power of ten. -/
theorem fixedDigits_lt {width : Nat} : ∀ {value : Nat} {s : List Char},
    fixedDigits width value s = .ok (n, rest) → n < (value + 1) * 10 ^ width := by
  induction width with
  | zero =>
    rintro value s ⟨⟩
    omega
  | succ width ih =>
    rintro value (_ | ⟨c, s⟩) h
    · cases h
    · rw [fixedDigits] at h
      split at h
      · next d hd =>
        have hlt := digit?_lt hd
        calc n < (value * 10 + d + 1) * 10 ^ width := ih h
          _ ≤ (value + 1) * 10 * 10 ^ width := Nat.mul_le_mul_right _ (by omega)
          _ = (value + 1) * 10 ^ (width + 1) := by rw [Nat.pow_succ, Nat.mul_assoc, Nat.mul_comm 10]
      · cases h

theorem digitRun_mem {most : Nat} {m : Int} : ∀ {count : Nat} {value : Nat} {s : List Char},
    digitRun most count value s = .ok (count', m, rest) →
      0 ≤ m ∧ m < ((value + 1) * 10 ^ most : Nat) := by
  induction most with
  | zero =>
    rintro count value s ⟨⟩
    omega
  | succ most ih =>
    intro count value s h
    have hstop : value < (value + 1) * 10 ^ (most + 1) :=
      Nat.lt_of_lt_of_le (Nat.lt_succ_self value)
        (Nat.le_mul_of_pos_right _ (Nat.pow_pos (by decide)))
    cases s with
    | nil =>
      cases h
      omega
    | cons c s =>
      rw [digitRun] at h
      cases hc : digit? c with
      | none =>
        rw [hc] at h
        cases h
        omega
      | some d =>
        have hlt := digit?_lt hc
        rw [hc] at h
        dsimp only at h
        split at h
        · have hnext : digitRun most (count + 1) (value * 10 + d : Nat) s =
              .ok (count', m, rest) := by
            exact_mod_cast h
          obtain ⟨hnonneg, hm⟩ := ih hnext
          constructor
          · exact hnonneg
          · have hle : (value * 10 + d + 1) * 10 ^ most ≤ (value + 1) * 10 ^ (most + 1) := by
              rw [Nat.pow_succ', ← Nat.mul_assoc]
              exact Nat.mul_le_mul_right _ (by omega)
            omega
        · cases h

theorem number_mem {most : Nat} {m : Int} (h : number most s = .ok (count, m, rest)) :
    0 ≤ m ∧ m < (10 ^ most : Nat) := by
  rw [number] at h
  split at h
  · cases h
  obtain ⟨⟨count', m', rest'⟩, hrun, h⟩ := bind_eq_ok h
  dsimp only at h
  split at h
  · cases h
  · cases h
    have hmem : 0 ≤ m ∧ m < ((0 + 1) * 10 ^ most : Nat) := digitRun_mem hrun
    rwa [Nat.zero_add, Nat.one_mul] at hmem

end Digits

section Layout

/-- The text begins with a sign, behind blanks. -/
def Signed (s : List Char) : Prop :=
  ∃ rest, Text.trimStart s = '-' :: rest ∨ Text.trimStart s = '+' :: rest

/-- The year of a text that does not begin with a sign has at most four digits. -/
theorem signedYear_mem {n : Int} (h : signedYear s = .ok (n, rest)) (hs : ¬ Signed s) :
    0 ≤ n ∧ n ≤ 9999 := by
  rw [signedYear] at h
  dsimp only at h
  split at h
  · next digits htrim => exact absurd ⟨digits, .inl htrim⟩ hs
  · next digits htrim => exact absurd ⟨digits, .inr htrim⟩ hs
  · obtain ⟨⟨count, m, rest'⟩, hread, h⟩ := bind_eq_ok h
    have hmem := number_mem hread
    dsimp only at h
    split at h
    · cases h
    · cases h
      omega

/-- The time of day is one that a clock shows, with a leap second. -/
structure Parts.OnClock (p : Parts) : Prop where
  hour_le : p.hour ≤ 23
  minute_le : p.minute ≤ 59
  second_le : p.second ≤ 60

theorem bounded_le {low high n : Nat} (h : bounded low high s = .ok (n, rest)) : n ≤ high := by
  rw [bounded] at h
  obtain ⟨⟨count, m, rest'⟩, -, h⟩ := bind_eq_ok h
  dsimp only at h
  split at h
  · cases h
  · cases h
    omega

/-- One part of a layout sets the year only where it is the year, and keeps to the clock. -/
theorem Item.read_parts {item : Item} (h : item.read p s = .ok (p', rest)) :
    (item ≠ .year → p'.year = p.year) ∧ (p.OnClock → p'.OnClock) := by
  cases item with
  | year | month | day | offset =>
    obtain ⟨⟨n, s'⟩, -, h⟩ := bind_eq_ok h
    cases h
    exact ⟨by simp, fun hp => ⟨hp.1, hp.2, hp.3⟩⟩
  | hour =>
    obtain ⟨⟨n, s'⟩, hn, h⟩ := bind_eq_ok h
    cases h
    exact ⟨fun _ => rfl, fun hp => ⟨bounded_le hn, hp.2, hp.3⟩⟩
  | minute =>
    obtain ⟨⟨n, s'⟩, hn, h⟩ := bind_eq_ok h
    cases h
    exact ⟨fun _ => rfl, fun hp => ⟨hp.1, bounded_le hn, hp.3⟩⟩
  | second =>
    obtain ⟨⟨n, s'⟩, hn, h⟩ := bind_eq_ok h
    cases h
    exact ⟨fun _ => rfl, fun hp => ⟨hp.1, hp.2, bounded_le hn⟩⟩
  | fraction =>
    rw [read.eq_def] at h
    dsimp only at h
    split at h
    · obtain ⟨⟨n, s'⟩, -, h⟩ := bind_eq_ok h
      cases h
      exact ⟨fun _ => rfl, fun hp => ⟨hp.1, hp.2, hp.3⟩⟩
    · cases h
      exact ⟨fun _ => rfl, id⟩
  | char | oneOf =>
    rw [read.eq_def] at h
    dsimp only at h
    split at h
    · cases h
    · split at h <;> cases h
      exact ⟨fun _ => rfl, id⟩
  | blanks =>
    cases h
    exact ⟨fun _ => rfl, id⟩
  | zone =>
    rw [read] at h
    dsimp only at h
    split at h
    · cases h
      exact ⟨fun _ => rfl, fun hp => ⟨hp.1, hp.2, hp.3⟩⟩
    · obtain ⟨⟨n, s'⟩, -, h⟩ := bind_eq_ok h
      cases h
      exact ⟨fun _ => rfl, fun hp => ⟨hp.1, hp.2, hp.3⟩⟩

theorem readItems_parts {items : List Item} (h : readItems items p s = .ok (p', rest)) :
    ((∀ item ∈ items, item ≠ .year) → p'.year = p.year) ∧ (p.OnClock → p'.OnClock) := by
  induction items generalizing p s with
  | nil =>
    cases h
    exact ⟨fun _ => rfl, id⟩
  | cons item items ih =>
    obtain ⟨⟨q, s'⟩, hread, h⟩ := bind_eq_ok h
    obtain ⟨hyear, hclock⟩ := Item.read_parts hread
    obtain ⟨hyears, hclocks⟩ := ih h
    constructor
    · intro hy
      obtain ⟨hitem, hitems⟩ := List.forall_mem_cons.mp hy
      exact (hyears hitems).trans (hyear hitem)
    · exact fun hp => hclocks (hclock hp)

end Layout

section Readers

variable {t : Instant}

/-- What the parts of a date that is read have in common, unless its text begins with a sign. -/
structure Parts.Names (p : Parts) (t : Instant) : Prop where
  instant_eq : p.instant = .ok t
  year_mem : 0 ≤ p.year ∧ p.year ≤ 9999
  onClock : p.OnClock

theorem names_of_readLayout (h : readLayout listedLayout s = .ok t) (hs : ¬ Signed s) :
    ∃ p : Parts, p.Names t := by
  obtain ⟨⟨p, rest⟩, hitems, h⟩ := bind_eq_ok h
  obtain ⟨-, hclock⟩ := readItems_parts hitems
  dsimp only at h
  split at h
  · obtain ⟨⟨q, s'⟩, hread, hitems⟩ := bind_eq_ok hitems
    obtain ⟨⟨n, s''⟩, hyear, hread⟩ := bind_eq_ok hread
    cases hread
    obtain ⟨hsame, -⟩ := readItems_parts hitems
    have hp : p.year = n := hsame (by simp)
    exact ⟨p, h, hp ▸ signedYear_mem hyear hs, hclock ⟨by decide, by decide, by decide⟩⟩
  · cases h

theorem names_of_readFixed (h : readFixed s = .ok t) : ∃ p : Parts, p.Names t := by
  rw [readFixed] at h
  split at h
  · cases h
  dsimp only at h
  obtain ⟨⟨year, s₁⟩, hyear, h⟩ := bind_eq_ok h
  obtain ⟨s₂, -, h⟩ := bind_eq_ok h
  obtain ⟨⟨month, s₃⟩, -, h⟩ := bind_eq_ok h
  obtain ⟨s₄, -, h⟩ := bind_eq_ok h
  obtain ⟨⟨day, s₅⟩, -, h⟩ := bind_eq_ok h
  split at h
  · cases h
  obtain ⟨s₆, -, h⟩ := bind_eq_ok h
  obtain ⟨⟨hour, s₇⟩, -, h⟩ := bind_eq_ok h
  obtain ⟨s₈, -, h⟩ := bind_eq_ok h
  obtain ⟨⟨minute, s₉⟩, -, h⟩ := bind_eq_ok h
  obtain ⟨s₁₀, -, h⟩ := bind_eq_ok h
  obtain ⟨⟨second, s₁₁⟩, -, h⟩ := bind_eq_ok h
  have hlt := fixedDigits_lt hyear
  dsimp only at h
  split at h
  all_goals
    obtain ⟨⟨nanos, s₁₂⟩, -, h⟩ := bind_eq_ok h
    split at h
    · cases h
    next hclock =>
    obtain ⟨⟨zone, s₁₃⟩, -, h⟩ := bind_eq_ok h
    split at h
    · cases h
    · rw [not_or, not_or, Nat.not_lt, Nat.not_lt, Nat.not_lt] at hclock
      exact ⟨_, h, by dsimp only; omega, ⟨hclock.1, hclock.2.1, hclock.2.2⟩⟩

theorem Parts.Names.exists_date (h : p.Names t) :
    ∃ d : Date, d.year = p.year ∧ d.dayNumber - 1 ≤ t.day ∧ t.day ≤ d.dayNumber + 1 := by
  obtain ⟨h, -, hclock⟩ := h
  rw [Parts.instant] at h
  split at h
  · cases h
  dsimp only at h
  split at h
  · next d hd =>
    split at h
    · cases h
    -- the time of day is shorter than a day, and so is the offset
    next hoffset =>
    have hhour := hclock.hour_le
    have hminute := hclock.minute_le
    have hsecond : (if p.second = 60 then (59, p.nanos + nanosPerSecond)
        else (p.second, p.nanos)).1 ≤ 59 := by
      have := hclock.second_le
      split <;> dsimp only <;> omega
    generalize (if p.second = 60 then (59, p.nanos + nanosPerSecond)
      else (p.second, p.nanos)) = clock at h hsecond
    split at h
    · next u hu =>
      cases h
      obtain ⟨hseconds, -⟩ := Instant.ofUnix?_eq_some_iff.mp hu
      have hyear : d.year = p.year := by
        rw [Date.ofParts?] at hd
        split at hd <;> cases hd
        rfl
      refine ⟨d, hyear, ?_⟩
      simp only [Instant.day]
      omega
    · cases h
  · cases h

end Readers

end DateText

namespace Date

/-- The first and the last date whose year has four digits. -/
def first : Date := ⟨0, 1, 1, by decide, by decide⟩
def last : Date := ⟨9999, 12, 31, by decide, by decide⟩

theorem year_mem_iff {d : Date} :
    0 ≤ d.year ∧ d.year ≤ 9999 ↔ first.dayNumber ≤ d.dayNumber ∧ d.dayNumber ≤ last.dayNumber := by
  have hmonth := d.month_mem
  have hday := d.day_mem.1
  have hdecember : d.month = 12 → d.day ≤ 31 := by
    intro h
    have hle := d.day_mem.2
    rw [h] at hle
    exact hle
  have hfirst : d.dayNumber < first.dayNumber ↔ d.Before first := dayNumber_lt_iff
  have hlast : last.dayNumber < d.dayNumber ↔ last.Before d := dayNumber_lt_iff
  simp only [Before, first, last] at hfirst hlast
  simp only [first, last]
  omega

end Date

namespace Instant

variable {t : Instant}

theorem inFourDigits_iff :
    t.InFourDigits ↔ Date.first.dayNumber ≤ t.day ∧ t.day ≤ Date.last.dayNumber := by
  obtain ⟨d, hd, hday⟩ := t.exists_date
  rw [InFourDigits, hd, ← hday]
  exact Date.year_mem_iff

end Instant

namespace Event

variable {e : Event} {t : Instant}

/-- A date of the event lies in a year of four digits. -/
def Storable (e : Event) : Prop :=
  ∀ t ∈ e.dateTime, t.InFourDigits

instance (e : Event) : Decidable e.Storable :=
  inferInstanceAs (Decidable (∀ t ∈ e.dateTime, t.InFourDigits))

theorem ofItem_toItem_of_not_inFourDigits (hd : e.dateTime = some t) (ht : ¬ t.InFourDigits) :
    ofItem e.toItem = .error (.invalid DateError.invalid.message) := by
  have hempty : (formatStoredDate t).isEmpty = false := by
    rw [Bool.eq_false_iff, ne_eq, String.isEmpty_iff]
    intro he
    have hlength := le_length_formatStoredDate t
    rw [he] at hlength
    cases hlength
  have hdate : decodeDate Attribute.decoding (.text (formatStoredDate t)) =
      .error (.invalid DateError.invalid.message) := by
    rw [decodeDate_text, hempty, Instant.readStoredDate_of_not_inFourDigits ht]
    rfl
  have hset : Record.setNamed (fields Attribute.decoding) Attribute.checkNumbers e.toItem {} =
      .error (.invalid DateError.invalid.message) := by
    rw [toItem, encodeFields, hd]
    change (decodeDate Attribute.decoding (.text (formatStoredDate t)) >>= fun date => _) >>= _ = _
    rw [hdate]
    rfl
  change Record.setNamed _ _ e.toItem ({} : Event) >>= _ = _
  rw [hset]
  rfl

/-- The item of an event is read as the event or, if its date is not in a year of four digits, not
at all. -/
theorem ofItem_toItem_eq (e : Event) :
    ofItem e.toItem =
      if e.Storable then .ok e.stored else .error (.invalid DateError.invalid.message) := by
  split
  · next h => exact ofItem_toItem h
  · next h =>
    simp only [Storable, not_forall] at h
    obtain ⟨t, hd, ht⟩ := h
    exact ofItem_toItem_of_not_inFourDigits hd ht

end Event

open Instant

section Accepted

variable {s : String} {t : Instant}

/-- A date is accepted in a listing or in the store. -/
def Accepts (s : String) (t : Instant) : Prop :=
  readListedDate? s = some t ∨ readStoredDate s = .ok t

/-- The date of the event was accepted when it was read. -/
def Event.Dated (e : Event) : Prop :=
  ∀ t ∈ e.dateTime, ∃ s, Accepts s t

theorem Accepts.names (h : Accepts s t) (hs : ¬ Signed s.toList) : ∃ p : Parts, p.Names t := by
  rcases h with h | h
  · rw [readListedDate?] at h
    split at h
    · next u hread =>
      cases h
      exact names_of_readLayout hread hs
    · cases hread : readStoredDate s with
      | ok u =>
        rw [hread] at h
        cases h
        exact names_of_readFixed hread
      | error x =>
        rw [hread] at h
        cases h
  · exact names_of_readFixed h

/-- What becomes of an accepted date: it is read back from the store if its year has four digits,
and is not read at all otherwise. Then its text has a sign, or its offset leads out of these
years. -/
structure ReadsBack (s : String) (t : Instant) : Prop where
  form_iff : IsStored (formatStoredDate t) ∧ (Text.Utf8.encode (formatStoredDate t)).length = 20 ↔
    t.InFourDigits
  read_eq : readStoredDate (formatStoredDate t) =
    if t.InFourDigits then .ok t.wholeSecond else .error .invalid
  signed_or_edge : ¬ t.InFourDigits →
    Signed s.toList ∨ t.day = Date.first.dayNumber - 1 ∨ t.day = Date.last.dayNumber + 1

theorem Accepts.readsBack (h : Accepts s t) : ReadsBack s t where
  form_iff := by
    rw [← isStored_formatStoredDate_iff]
    exact and_iff_left_of_imp IsStored.length_encode
  read_eq := by
    split
    · next ht => exact readStoredDate_formatStoredDate ht
    · next ht => exact readStoredDate_of_not_inFourDigits ht
  signed_or_edge ht := by
    by_cases hs : Signed s.toList
    · exact .inl hs
    · obtain ⟨p, hp⟩ := h.names hs
      obtain ⟨d, hd, hlow, hhigh⟩ := hp.exists_date
      have hmem := Date.year_mem_iff.mp (hd ▸ hp.year_mem)
      rw [inFourDigits_iff] at ht
      omega

example : (readStoredDate "0000-01-01T00:00:00+01:00").map formatStoredDate =
    .ok "-0001-12-31T23:00:00Z" := by decide +kernel

end Accepted

end GroupCalendar
