import GroupCalendar.Time.Civil
import Mathlib.Data.Nat.Init
import Mathlib.Tactic.ByContra

/-! # Days and dates

Every day number is the number of one date, and later days have later dates: a year is found by
cycles of 400, 100, 4 and single years, of which only the last of each is longer than the others.
-/

namespace GroupCalendar.Date

variable {a b : Date}

/-- The days of a year. -/
def daysInYear (year : Int) : Nat :=
  if isLeapYear year then 366 else 365

theorem daysInYear_eq (year : Int) : (daysInYear year : Int) =
    if year % 4 = 0 ∧ (year % 100 ≠ 0 ∨ year % 400 = 0) then 366 else 365 := by
  simp only [daysInYear, isLeapYear, Bool.and_eq_true, Bool.or_eq_true, decide_eq_true_eq]
  split <;> rfl

theorem daysBeforeYear_succ (year : Int) :
    daysBeforeYear (year + 1) = daysBeforeYear year + daysInYear year := by
  rw [daysInYear_eq]
  simp only [daysBeforeYear]
  omega

theorem daysBeforeYear_le {year year' : Int} (h : year < year') :
    daysBeforeYear (year + 1) ≤ daysBeforeYear year' := by
  simp only [daysBeforeYear]
  omega

theorem daysBeforeYear_cycles (era : Int) {century quad year : Int}
    (hc : 0 ≤ century ∧ century ≤ 3) (hq : 0 ≤ quad ∧ quad ≤ 24) (hy : 0 ≤ year ∧ year ≤ 3) :
    daysBeforeYear (era * 400 + century * 100 + quad * 4 + year + 1) =
      era * 146097 + century * 36524 + quad * 1461 + year * 365 := by
  simp only [daysBeforeYear]
  omega

/-- The year of a day begins on or before it, and ends behind it. -/
theorem yearOfDay_spec (n : Int) :
    daysBeforeYear (yearOfDay n).1 + (yearOfDay n).2 = n ∧
      (yearOfDay n).2 < daysInYear (yearOfDay n).1 := by
  simp only [yearOfDay]
  generalize hera : n / 146097 = era
  generalize hr : n % 146097 = r
  generalize hcentury : min (r / 36524) 3 = century
  generalize hs : r - century * 36524 = s
  generalize hquad : s / 1461 = quad
  generalize hu : s % 1461 = u
  generalize hyear : min (u / 365) 3 = year
  have hn : n = era * 146097 + r ∧ 0 ≤ r ∧ r < 146097 := by omega
  have hr : r = century * 36524 + s ∧ 0 ≤ century ∧ century ≤ 3 ∧ 0 ≤ s ∧
      (s < 36524 ∨ century = 3 ∧ s < 36525) := by omega
  have hs : s = quad * 1461 + u ∧ 0 ≤ quad ∧ quad ≤ 24 ∧ 0 ≤ u ∧ u < 1461 ∧
      (quad = 24 → century ≤ 2 → u < 1460) := by omega
  have hu : 0 ≤ year ∧ year ≤ 3 ∧ 0 ≤ u - year * 365 ∧
      (u - year * 365 < 365 ∨ year = 3 ∧ u - year * 365 < 366) := by omega
  clear hera hcentury hquad hyear
  have hbefore := daysBeforeYear_cycles era ⟨hr.2.1, hr.2.2.1⟩ ⟨hs.2.1, hs.2.2.1⟩ ⟨hu.1, hu.2.1⟩
  have hlength := daysInYear_eq (era * 400 + century * 100 + quad * 4 + year + 1)
  exact ⟨by omega, by omega⟩

theorem daysBeforeMonth_succ (year : Int) (month : Nat) :
    daysBeforeMonth year (month + 1) = daysBeforeMonth year month + daysInMonth year month := rfl

theorem daysBeforeMonth_thirteen (year : Int) : daysBeforeMonth year 13 = daysInYear year := by
  simp only [daysBeforeMonth, daysInMonth, daysInYear]
  split <;> rfl

theorem daysBeforeMonth_mono {year : Int} {month month' : Nat} (h : month ≤ month') :
    daysBeforeMonth year month ≤ daysBeforeMonth year month' := by
  induction month', h using Nat.le_induction with
  | base => exact Nat.le_refl _
  | succ month' _ ih =>
    rw [daysBeforeMonth_succ]
    omega

/-- The month of a day begins on or before it, and ends behind it. -/
theorem monthOfDay_spec {year : Int} {fuel : Nat} : ∀ {month rest : Nat},
    daysBeforeMonth year month + rest < daysBeforeMonth year (month + fuel + 1) →
    daysBeforeMonth year (monthOfDay year fuel month rest).1 +
        (monthOfDay year fuel month rest).2 = daysBeforeMonth year month + rest ∧
      (monthOfDay year fuel month rest).2 <
        daysInMonth year (monthOfDay year fuel month rest).1 ∧
      month ≤ (monthOfDay year fuel month rest).1 ∧
      (monthOfDay year fuel month rest).1 ≤ month + fuel := by
  induction fuel with
  | zero =>
    intro month rest h
    rw [Nat.add_zero, daysBeforeMonth_succ] at h
    exact ⟨rfl, Nat.lt_of_add_lt_add_left h, Nat.le_refl _, Nat.le_refl _⟩
  | succ fuel ih =>
    intro month rest h
    rw [monthOfDay]
    split
    · next hr => exact ⟨rfl, hr, Nat.le_refl _, Nat.le_add_right ..⟩
    · next hr =>
      have hsucc := daysBeforeMonth_succ year month
      have hstep : daysBeforeMonth year (month + 1) + (rest - daysInMonth year month) =
          daysBeforeMonth year month + rest := by omega
      have hnext : daysBeforeMonth year (month + 1) + (rest - daysInMonth year month) <
          daysBeforeMonth year (month + 1 + fuel + 1) := by
        rw [hstep, show month + 1 + fuel + 1 = month + (fuel + 1) + 1 by omega]
        exact h
      obtain ⟨h₁, h₂, h₃, h₄⟩ := ih hnext
      exact ⟨h₁.trans hstep, h₂, by omega, by omega⟩

/-- The parts of a day number are a date, and the day number is its own. -/
theorem partsOfDayNumber_spec (n : Int) :
    ∃ d : Date, partsOfDayNumber n = (d.year, d.month, d.day) ∧ d.dayNumber = n := by
  obtain ⟨hy, hlt⟩ := yearOfDay_spec (n + epochDays)
  have hone : ∀ year, daysBeforeMonth year 1 = 0 := fun _ => rfl
  have hrest : daysBeforeMonth (yearOfDay (n + epochDays)).1 1 + (yearOfDay (n + epochDays)).2 <
      daysBeforeMonth (yearOfDay (n + epochDays)).1 (1 + 11 + 1) := by
    rw [daysBeforeMonth_thirteen, hone]
    omega
  obtain ⟨hm, hd, hlow, hhigh⟩ := monthOfDay_spec hrest
  refine ⟨⟨_, _, _, ⟨hlow, hhigh⟩, Nat.le_add_left 1 _, hd⟩, rfl, ?_⟩
  simp only [dayNumber]
  rw [hone] at hm
  omega

/-- An earlier date by its parts. -/
def Before (a b : Date) : Prop :=
  a.year < b.year ∨ a.year = b.year ∧
    (a.month < b.month ∨ a.month = b.month ∧ a.day < b.day)

theorem Before.dayNumber_lt (h : a.Before b) : a.dayNumber < b.dayNumber := by
  have hday : ∀ d : Date, daysBeforeMonth d.year d.month + d.day ≤
      daysBeforeMonth d.year (d.month + 1) := by
    intro d
    rw [daysBeforeMonth_succ]
    exact Nat.add_le_add_left d.day_mem.2 _
  have ha := hday a
  have hb := b.day_mem.1
  simp only [dayNumber]
  rcases h with hy | ⟨hy, hm | ⟨hm, hd⟩⟩
  · have hyear : daysBeforeMonth a.year (a.month + 1) ≤ daysInYear a.year := by
      rw [← daysBeforeMonth_thirteen]
      exact daysBeforeMonth_mono (Nat.succ_le_succ a.month_mem.2)
    have hnext := daysBeforeYear_le hy
    rw [daysBeforeYear_succ] at hnext
    omega
  · have hmonth : daysBeforeMonth a.year (a.month + 1) ≤ daysBeforeMonth a.year b.month :=
      daysBeforeMonth_mono hm
    rw [← hy]
    omega
  · rw [← hy, ← hm]
    omega

theorem before_or_before_of_ne
    (h : ¬ (a.year = b.year ∧ a.month = b.month ∧ a.day = b.day)) :
    a.Before b ∨ b.Before a := by
  simp only [Before]
  omega

/-- Later days have later dates. -/
theorem dayNumber_lt_iff : a.dayNumber < b.dayNumber ↔ a.Before b := by
  refine ⟨fun h => ?_, Before.dayNumber_lt⟩
  by_cases he : a.year = b.year ∧ a.month = b.month ∧ a.day = b.day
  · simp only [dayNumber, he.1, he.2.1, he.2.2] at h
    omega
  · rcases before_or_before_of_ne he with hab | hba
    · exact hab
    · have := hba.dayNumber_lt
      omega

end GroupCalendar.Date
