import GroupCalendar.Time.Format
import GroupCalendar.Time.Layout

/-! # Date texts

The three forms of dates that are read: the form of the store, with every digit in its place; the
form of a listing, which has no seconds; and the loose form of a request. The store writes whole
seconds of Universal Time, so that the order of its texts is the order of time.
-/

namespace GroupCalendar

namespace DateText

/-- The digits at the front, as many as asked for. -/
def fixedDigits : Nat → Nat → List Char → Read (Nat × List Char)
  | 0, n, s => .ok (n, s)
  | count + 1, n, c :: rest =>
    match digit? c with
    | some d => fixedDigits count (n * 10 + d) rest
    | none => .error .invalid
  | _ + 1, _, [] => .error .invalid

/-- One of some characters at the front. -/
def fixedChar (cs : List Char) : List Char → Read (List Char)
  | c :: rest => if c ∈ cs then .ok rest else .error .invalid
  | [] => .error .invalid

/-- The instant of a date and a time of day with seconds, all digits in their places, followed by
an optional fraction and an offset. -/
def readFixed (s : List Char) : Read Instant := do
  if octets s < 19 then throw .tooShort
  let (year, s) ← fixedDigits 4 0 s
  let s ← fixedChar ['-'] s
  let (month, s) ← fixedDigits 2 0 s
  let s ← fixedChar ['-'] s
  let (day, s) ← fixedDigits 2 0 s
  if (Date.ofParts? year month day).isNone then throw .outOfRange
  let s ← fixedChar ['T', 't', ' '] s
  let (hour, s) ← fixedDigits 2 0 s
  let s ← fixedChar [':'] s
  let (minute, s) ← fixedDigits 2 0 s
  let s ← fixedChar [':'] s
  let (second, s) ← fixedDigits 2 0 s
  let (nanos, s) ← match s with
    | '.' :: s => fraction s
    | s => pure (0, s)
  if 23 < hour ∨ 59 < minute ∨ 60 < second then throw .outOfRange
  let (zone, s) ← DateText.offset .colon true s
  if !s.isEmpty then throw .tooLong
  Parts.instant ⟨year, month, day, hour, minute, second, nanos, zone⟩

/-- `2025-04-15T18:00-05:00` -/
def listedLayout : List Item :=
  [.year, .char '-', .month, .char '-', .day, .char 'T', .hour, .char ':', .minute, .offset]

/-- `2025-04-15T18:00:00.5 +09:00`, with blanks before every separator. -/
def requestedLayout : List Item :=
  [.year, .blanks, .char '-', .month, .blanks, .char '-', .day, .oneOf ['t', 'T', ' '],
    .hour, .blanks, .char ':', .minute, .blanks, .char ':', .second, .fraction, .blanks,
    .zone, .blanks]

end DateText

/-- The date text of the store. -/
def formatStoredDate (t : Instant) : String := t.toSeconds

/-- The instant of a date text of the store. -/
def readStoredDate (s : String) : Except DateError Instant :=
  DateText.readFixed s.toList

/-- The instant of a date in a listing, with or without seconds. -/
def readListedDate? (s : String) : Option Instant :=
  match DateText.readLayout DateText.listedLayout s.toList with
  | .ok t => some t
  | .error _ => (readStoredDate s).toOption

/-- The instant of a date in a request. -/
def readRequestedDate (s : String) : Except DateError Instant :=
  DateText.readLayout DateText.requestedLayout s.toList

end GroupCalendar
