/-! # Civil dates

Dates of the proleptic Gregorian calendar and their numbers, counted in days from the first of
January 1970.
-/

namespace GroupCalendar

def isLeapYear (year : Int) : Bool :=
  year % 4 = 0 && (year % 100 ≠ 0 || year % 400 = 0)

/-- Number of days of a month, counted from one; zero for a month that there is not. -/
def daysInMonth (year : Int) (month : Nat) : Nat :=
  match month with
  | 1 | 3 | 5 | 7 | 8 | 10 | 12 => 31
  | 4 | 6 | 9 | 11 => 30
  | 2 => if isLeapYear year then 29 else 28
  | _ => 0

structure Date where
  year : Int
  month : Nat
  day : Nat
  month_mem : 1 ≤ month ∧ month ≤ 12
  day_mem : 1 ≤ day ∧ day ≤ daysInMonth year month

namespace Date

/-- The date of a year, month and day, if there is one. -/
def ofParts? (year : Int) (month day : Nat) : Option Date :=
  if h : (1 ≤ month ∧ month ≤ 12) ∧ 1 ≤ day ∧ day ≤ daysInMonth year month then
    some ⟨year, month, day, h.1, h.2⟩
  else none

/-- Days of a year before a month. -/
def daysBeforeMonth (year : Int) : Nat → Nat
  | 0 => 0
  | m + 1 => daysBeforeMonth year m + daysInMonth year m

/-- Days from the first of January of the year one to that of a year. -/
def daysBeforeYear (year : Int) : Int :=
  let y := year - 1
  365 * y + y / 4 - y / 100 + y / 400

/-- Days from the first of January of the year one to that of 1970. -/
def epochDays : Int := 719162

/-- Days since the first of January 1970. -/
def dayNumber (d : Date) : Int :=
  daysBeforeYear d.year + daysBeforeMonth d.year d.month + (d.day - 1) - epochDays

/-- Year and day of the year, from zero, of a day counted from the first of January of the year
one. -/
def yearOfDay (n : Int) : Int × Nat :=
  let era := n / 146097
  let r := n % 146097
  let century := min (r / 36524) 3
  let r := r - century * 36524
  let quad := r / 1461
  let r := r % 1461
  let y := min (r / 365) 3
  (era * 400 + century * 100 + quad * 4 + y + 1, (r - y * 365).toNat)

/-- The first month whose days are not all before a day of the year, and the days that are left. -/
def monthOfDay (year : Int) : Nat → Nat → Nat → Nat × Nat
  | 0, month, rest => (month, rest)
  | fuel + 1, month, rest =>
    if rest < daysInMonth year month then (month, rest)
    else monthOfDay year fuel (month + 1) (rest - daysInMonth year month)

/-- Year, month and day of a day number. -/
def partsOfDayNumber (n : Int) : Int × Nat × Nat :=
  let (year, rest) := yearOfDay (n + epochDays)
  let (month, rest) := monthOfDay year 11 1 rest
  (year, month, rest + 1)

end Date

end GroupCalendar
