import GroupCalendar.Json.Printer
import GroupCalendar.Number.Numeral
import GroupCalendar.Text.Split

/-! # Numeric addresses

Addresses of hosts as numbers: four octets, which may also be written octal or hexadecimal and
with the last octets joined, or eight groups of sixteen bits, of which the longest run of zeros is
left out.
-/

namespace GroupCalendar

/-- The value of digits in a base. -/
def readBase? (base : Nat) (cs : List Char) : Option Nat :=
  cs.foldlM (fun n c => do
    let d ← hexDigit? c
    if d < base then return n * base + d else none) 0

namespace Ipv4

/-- The base of a number and its digits: `0x` stands before hexadecimal and `0` before octal
ones. -/
def baseOf : List Char → Nat × List Char
  | '0' :: 'x' :: digits | '0' :: 'X' :: digits => (16, digits)
  | '0' :: d :: digits => (8, d :: digits)
  | digits => (10, digits)

def readPart? (cs : List Char) : Option Nat :=
  let (base, digits) := baseOf cs
  if cs.isEmpty then none else readBase? base digits

/-- The parts between points; a last point ends the address. -/
def parts (cs : List Char) : List (List Char) :=
  let ps := Text.splitAt '.' cs
  match ps.reverse with
  | [] :: rest@(_ :: _) => rest.reverse
  | _ => ps

/-- A name with such a last part can only be an address. -/
def endsInNumber (cs : List Char) : Bool :=
  match (parts cs).getLast? with
  | none => false
  | some last =>
    (!last.isEmpty && last.all fun c => (digit? c).isSome) || (readPart? last).isSome

/-- The address of some numbers, of which the last one fills the remaining octets. -/
def ofNumbers? (ns : List Nat) : Option Nat :=
  match ns.reverse with
  | [] => none
  | last :: before =>
    if 4 < ns.length || before.any (255 < ·) || 1 <<< (8 * (4 - before.length)) ≤ last then none
    else
      some (before.reverse.foldl (fun n d => n * 256 + d) 0 <<< (8 * (4 - before.length)) + last)

def read? (cs : List Char) : Option Nat :=
  ((parts cs).mapM readPart?).bind ofNumbers?

def toChars (n : Nat) : List Char :=
  Text.joinWith '.' <|
    [n / 16777216, n / 65536 % 256, n / 256 % 256, n % 256].map (Nat.toDigits 10)

end Ipv4

namespace Ipv6

/-- Groups read so far, and where among them zeros were left out. -/
structure Groups where
  groups : List Nat
  gap : Option Nat

/-- One octet without leading zeros. -/
def readOctet? (cs : List Char) : Option Nat :=
  if cs.isEmpty ∨ (cs.head? = some '0' ∧ 1 < cs.length) then none
  else (readBase? 10 cs).filter (· < 256)

/-- The two last groups, written as four octets. -/
def readOctets? (cs : List Char) : Option (List Nat) := do
  match ← (Text.splitAt '.' cs).mapM readOctet? with
  | [a, b, c, d] => return [a * 256 + b, c * 256 + d]
  | _ => none

/-- One group of up to four digits. -/
def readGroup? (cs : List Char) : Option Nat :=
  if cs.isEmpty ∨ 4 < cs.length then none else readBase? 16 cs

/-- The groups between colons, with octets allowed in the last place. -/
def readGroups? : List (List Char) → Option (List Nat)
  | [] => some []
  | [last] => if last.contains '.' then readOctets? last else (readGroup? last).map ([·])
  | g :: rest => do return (← readGroup? g) :: (← readGroups? rest)

/-- What stands before the first double colon and what stands after it. -/
def cutAtGap : List Char → Option (List Char × List Char)
  | ':' :: ':' :: rest => some ([], rest)
  | c :: rest => (cutAtGap rest).map fun (before, after) => (c :: before, after)
  | [] => none

def readSide? (cs : List Char) : Option (List Nat) :=
  if cs.isEmpty then some [] else readGroups? (Text.splitAt ':' cs)

/-- The eight groups of an address. Zeros may be left out once, and octets stand at its end. -/
def read? (cs : List Char) : Option (List Nat) :=
  match cutAtGap cs with
  | none => (readSide? cs).filter (·.length = 8)
  | some (before, after) => do
    if before.contains '.' then none
    let before ← readSide? before
    let after ← readSide? after
    if before.length + after.length < 8 then
      return before ++ List.replicate (8 - before.length - after.length) 0 ++ after
    else none

def hexDigits (n : Nat) : List Char :=
  Nat.toDigits 16 n

/-- The length of the run of zeros at the front. -/
def zeros (groups : List Nat) : Nat :=
  (groups.takeWhile (· = 0)).length

/-- The place of the longest run of zeros, and its length; the first of equals. -/
def longestGap : Nat → List Nat → Nat × Nat
  | _, [] => (0, 0)
  | i, g :: rest =>
    let here := zeros (g :: rest)
    let later := longestGap (i + 1) rest
    if 0 < here ∧ later.2 ≤ here then (i, here) else later

def toChars (groups : List Nat) : List Char :=
  let (place, count) := longestGap 0 groups
  let joined (gs : List Nat) : List Char := Text.joinWith ':' (gs.map hexDigits)
  if count < 2 then joined groups
  else joined (groups.take place) ++ ':' :: ':' :: joined (groups.drop (place + count))

end Ipv6

end GroupCalendar
