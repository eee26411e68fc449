import GroupCalendar.Time.Civil

/-! # Instants

Instants of Universal Time to the nanosecond. A leap second is the second half of a second that
ends a minute: its nanoseconds count from `10^9`. Instants are ordered by their second and then by
their nanosecond.
-/

namespace GroupCalendar

/-- Nanoseconds of a second. -/
abbrev nanosPerSecond : Nat := 1000000000

/-- Seconds since 1970, and nanoseconds. The years run from -262143 to 262142. -/
structure Instant where
  seconds : Int
  nanos : Nat
  seconds_mem : -8334601228800 ≤ seconds ∧ seconds ≤ 8210266876799
  nanos_lt : nanos < 2 * nanosPerSecond
  leap_ends_minute : nanosPerSecond ≤ nanos → seconds % 60 = 59

namespace Instant

theorem ext_parts {a b : Instant} (hs : a.seconds = b.seconds) (hn : a.nanos = b.nanos) :
    a = b := by
  cases a; cases b; simp_all

instance : DecidableEq Instant := fun a b =>
  if h : a.seconds = b.seconds ∧ a.nanos = b.nanos then isTrue (ext_parts h.1 h.2)
  else isFalse fun e => h ⟨by rw [e], by rw [e]⟩

/-- The instant of seconds and nanoseconds, if it is in range. -/
def ofUnix? (seconds : Int) (nanos : Nat) : Option Instant :=
  if h : (-8334601228800 ≤ seconds ∧ seconds ≤ 8210266876799) ∧ nanos < 2 * nanosPerSecond ∧
      (nanosPerSecond ≤ nanos → seconds % 60 = 59) then
    some ⟨seconds, nanos, h.1, h.2.1, h.2.2⟩
  else none

/-- The first of January 1970. -/
def epoch : Instant := ⟨0, 0, by omega, by decide, by decide⟩

/-- The last instant. -/
def latest : Instant := ⟨8210266876799, 999999999, by omega, by decide, by decide⟩

instance : Inhabited Instant := ⟨epoch⟩

def before (a b : Instant) : Bool :=
  a.seconds < b.seconds || (a.seconds = b.seconds && a.nanos < b.nanos)

def later (a b : Instant) : Instant :=
  if a.before b then b else a

/-- The instant some nanoseconds later, or earlier when they are negative. A leap second is left
for the ordinary second that it extends, or for the next one. -/
def addNanos? (t : Instant) (amount : Int) : Option Instant :=
  let wholeSeconds := amount.tdiv nanosPerSecond
  let rest := amount.tmod nanosPerSecond
  if nanosPerSecond ≤ t.nanos then
    if 0 < wholeSeconds ∨ (0 < rest ∧ (2 * nanosPerSecond : Int) - rest ≤ t.nanos) then
      shift t.seconds (t.nanos - nanosPerSecond) amount
    else if wholeSeconds < 0 then shift (t.seconds + 1) (t.nanos - nanosPerSecond) amount
    else ofUnix? t.seconds (t.nanos + rest).toNat
  else shift t.seconds t.nanos amount
where
  shift (seconds : Int) (nanos : Int) (amount : Int) : Option Instant :=
    let total := nanos + amount
    ofUnix? (seconds + total / nanosPerSecond) (total % nanosPerSecond).toNat

def addSeconds? (t : Instant) (seconds : Int) : Option Instant :=
  t.addNanos? (seconds * nanosPerSecond)

def addMillis? (t : Instant) (millis : Int) : Option Instant :=
  t.addNanos? (millis * 1000000)

/-- Days since 1970. -/
def day (t : Instant) : Int := t.seconds / 86400

/-- Seconds since the day began. -/
def secondOfDay (t : Instant) : Nat := (t.seconds % 86400).toNat

/-- Year, month and day. -/
def date (t : Instant) : Int × Nat × Nat := Date.partsOfDayNumber t.day

/-- The same time of the same day some months later; the last day of the month where that month is
shorter. -/
def addMonths? (t : Instant) (months : Nat) : Option Instant :=
  let (year, month, day) := t.date
  let count := month - 1 + months
  let year := year + (count / 12 : Nat)
  let month := count % 12 + 1
  (Date.ofParts? year month (min day (daysInMonth year month))).bind fun d =>
    ofUnix? (d.dayNumber * 86400 + t.secondOfDay) t.nanos

end Instant

end GroupCalendar
