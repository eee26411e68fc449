import GroupCalendar.Number.Numeral
import GroupCalendar.Time.Instant

/-! # Texts of instants

Years from 0 to 9999 have four digits; every other year has a sign and at least four digits. The
fraction of a second is dropped, or written with as few groups of three digits as it needs. A leap
second is written as second 60.
-/

namespace GroupCalendar.Instant

def yearText (year : Int) : String :=
  if 0 ≤ year ∧ year ≤ 9999 then padDigits 4 year.toNat
  else (if year < 0 then "-" else "+") ++ padDigits 4 year.natAbs

def dateText (t : Instant) : String :=
  let (year, month, day) := t.date
  yearText year ++ "-" ++ padDigits 2 month ++ "-" ++ padDigits 2 day

def timeText (t : Instant) : String :=
  let s := t.secondOfDay
  let leap := if nanosPerSecond ≤ t.nanos then 1 else 0
  padDigits 2 (s / 3600) ++ ":" ++ padDigits 2 (s / 60 % 60) ++ ":" ++ padDigits 2 (s % 60 + leap)

def fractionText (t : Instant) : String :=
  let n := t.nanos % nanosPerSecond
  if n = 0 then ""
  else if n % 1000000 = 0 then "." ++ padDigits 3 (n / 1000000)
  else if n % 1000 = 0 then "." ++ padDigits 6 (n / 1000)
  else "." ++ padDigits 9 n

/-- The text to the whole second: `2025-04-12T10:00:00Z`. -/
def toSeconds (t : Instant) : String :=
  dateText t ++ "T" ++ timeText t ++ "Z"

/-- The text with the fraction of the second. -/
def toText (t : Instant) : String :=
  dateText t ++ "T" ++ timeText t ++ fractionText t ++ "Z"

end GroupCalendar.Instant
