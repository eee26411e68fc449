import GroupCalendar.Number.Numeral
import GroupCalendar.Text.Blank
import GroupCalendar.Time.Instant

/-! # Layouts of dates

A layout lists what stands in a date text, part by part. Parts are read from left to right and each
number is checked as it is read; the date and the time of day are put together at the end and moved
to Universal Time by the offset.
-/

namespace GroupCalendar

inductive DateError where
  | outOfRange
  | impossible
  | invalid
  | tooShort
  | tooLong
  deriving DecidableEq, Repr

def DateError.message : DateError → String
  | .outOfRange => "input is out of range"
  | .impossible => "no possible date and time matching input"
  | .invalid => "input contains invalid characters"
  | .tooShort => "premature end of input"
  | .tooLong => "trailing input"

namespace DateText

abbrev Read := Except DateError

/-- Length in octets. -/
def octets (cs : List Char) : Nat :=
  cs.foldl (fun n c => n + c.utf8Size) 0

/-- At most `most` digits as a number, in the range of 64 bits. -/
def digitRun : Nat → Nat → Int → List Char → Read (Nat × Int × List Char)
  | 0, count, n, s => .ok (count, n, s)
  | _ + 1, count, n, [] => .ok (count, n, [])
  | most + 1, count, n, c :: rest =>
    match digit? c with
    | none => .ok (count, n, c :: rest)
    | some d =>
      let n := n * 10 + d
      if n < 9223372036854775808 then digitRun most (count + 1) n rest else .error .outOfRange

/-- A number of one digit up to `most` digits, and how many there are. -/
def number (most : Nat) (s : List Char) : Read (Nat × Int × List Char) := do
  if s.isEmpty then throw .tooShort
  let (count, n, rest) ← digitRun most 0 0 s
  if count = 0 then throw .invalid
  return (count, n, rest)

/-- Nanoseconds of a decimal fraction; digits behind the ninth are skipped. -/
def fraction (s : List Char) : Read (Nat × List Char) := do
  let (count, n, rest) ← number 9 s
  return (n.toNat * Nat.pow 10 (9 - count), rest.dropWhile fun c => (digit? c).isSome)

/-- How the hours and the minutes of an offset are kept apart. -/
inductive OffsetSeparator where
  /-- One colon. -/
  | colon
  /-- Any colons and blanks. -/
  | loose

def OffsetSeparator.skip : OffsetSeparator → List Char → Read (List Char)
  | .colon, ':' :: rest => .ok rest
  | .colon, [] => .error .tooShort
  | .colon, _ => .error .invalid
  | .loose, s => .ok (s.dropWhile fun c => c = ':' || Text.isBlank c)

/-- Two digits of an offset as a number and what follows them. -/
def twoDigits (s : List Char) : Read (Nat × Nat × List Char) :=
  if octets s < 2 then .error .tooShort
  else
    match s with
    | a :: b :: rest =>
      match digit? a, digit? b with
      | some x, some y => .ok (x, y, rest)
      | _, _ => .error .invalid
    | _ => .error .invalid

/-- Offset from Universal Time in seconds, from its sign on; `zulu` allows the letter Z. -/
def offset (separator : OffsetSeparator) (zulu : Bool) (s : List Char) :
    Read (Int × List Char) :=
  match s with
  | [] => .error .tooShort
  | c :: rest =>
    if zulu && (c = 'Z' || c = 'z') then .ok (0, rest)
    else if c = '+' || c = '-' || c = '\u2212' then do
      let (h, h', rest) ← twoDigits rest
      let rest ← separator.skip rest
      let (m, m', rest) ← twoDigits rest
      if 5 < m then throw .outOfRange
      let seconds : Int := (h * 10 + h') * 3600 + (m * 10 + m') * 60
      return (if c = '+' then seconds else -seconds, rest)
    else .error .invalid

/-- The parts of a date text. -/
structure Parts where
  year : Int := 0
  month : Nat := 0
  day : Nat := 0
  hour : Nat := 0
  minute : Nat := 0
  second : Nat := 0
  nanos : Nat := 0
  offset : Int := 0

/-- The instant of the parts. Second 60 is the leap second behind second 59. -/
def Parts.instant (p : Parts) : Read Instant := do
  if p.year < -262143 ∨ 262142 < p.year then throw .outOfRange
  let some date := Date.ofParts? p.year p.month p.day | throw .outOfRange
  if 86400 ≤ p.offset.natAbs then throw .outOfRange
  let (second, nanos) := if p.second = 60 then (59, p.nanos + nanosPerSecond) else (p.second, p.nanos)
  let wall := date.dayNumber * 86400 + (p.hour * 3600 + p.minute * 60 + second : Nat)
  match Instant.ofUnix? (wall - p.offset) nanos with
  | some t => return t
  | none => throw .impossible

/-- A part of a layout. -/
inductive Item where
  | year
  | month
  | day
  | hour
  | minute
  | second
  /-- A point and a fraction, if there is a point. -/
  | fraction
  | char (c : Char)
  /-- One of some characters. -/
  | oneOf (cs : List Char)
  /-- Any blanks. -/
  | blanks
  /-- Blanks, then hours and minutes behind a sign. -/
  | offset
  /-- Blanks, then `UTC`, the letter Z or an offset. -/
  | zone

/-- A number behind blanks, which must lie between two bounds. -/
def bounded (low high : Nat) (s : List Char) : Read (Nat × List Char) := do
  let (_, n, rest) ← number 2 (Text.trimStart s)
  if n < low ∨ high < n then throw .outOfRange
  return (n.toNat, rest)

/-- A year behind blanks; with a sign it may have any number of digits. -/
def signedYear (s : List Char) : Read (Int × List Char) := do
  let s := Text.trimStart s
  let (_, n, rest) ← match s with
    | '-' :: digits => do
      let (count, n, rest) ← number digits.length digits
      pure (count, -n, rest)
    | '+' :: digits => number digits.length digits
    | _ => number 4 s
  if n < -2147483648 ∨ 2147483648 ≤ n then throw .outOfRange
  return (n, rest)

def Item.read (item : Item) (p : Parts) (s : List Char) : Read (Parts × List Char) :=
  match item with
  | .year => do
    let (n, s) ← signedYear s
    return ({ p with year := n }, s)
  | .month => do
    let (n, s) ← bounded 1 12 s
    return ({ p with month := n }, s)
  | .day => do
    let (n, s) ← bounded 1 31 s
    return ({ p with day := n }, s)
  | .hour => do
    let (n, s) ← bounded 0 23 s
    return ({ p with hour := n }, s)
  | .minute => do
    let (n, s) ← bounded 0 59 s
    return ({ p with minute := n }, s)
  | .second => do
    let (n, s) ← bounded 0 60 s
    return ({ p with second := n }, s)
  | .fraction =>
    match s with
    | '.' :: s => do
      let (n, s) ← DateText.fraction s
      return ({ p with nanos := n }, s)
    | s => .ok (p, s)
  | .char c =>
    match s with
    | [] => .error .tooShort
    | c' :: s => if c = c' then .ok (p, s) else .error .invalid
  | .oneOf cs =>
    match s with
    | [] => .error .tooShort
    | c :: s => if c ∈ cs then .ok (p, s) else .error .invalid
  | .blanks => .ok (p, Text.trimStart s)
  | .offset => do
    let (n, s) ← DateText.offset .loose false (Text.trimStart s)
    return ({ p with offset := n }, s)
  | .zone =>
    let s := Text.trimStart s
    if (s.take 3).map Char.toLower = ['u', 't', 'c'] then .ok ({ p with offset := 0 }, s.drop 3)
    else do
      let (n, s) ← DateText.offset .loose true s
      return ({ p with offset := n }, s)

/-- The parts of a layout, one after the other. -/
def readItems : List Item → Parts → List Char → Read (Parts × List Char)
  | [], p, s => .ok (p, s)
  | item :: items, p, s => do
    let (p, s) ← item.read p s
    readItems items p s

/-- The instant of a text that a layout describes from its beginning to its end. -/
def readLayout (layout : List Item) (s : List Char) : Read Instant := do
  let (p, rest) ← readItems layout {} s
  if rest.isEmpty then p.instant else throw .tooLong

end DateText

end GroupCalendar
