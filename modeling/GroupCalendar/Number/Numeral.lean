/-! # Integer numerals

Reading of decimal integers into a bounded range: an optional sign, then digits. A minus sign
belongs to ranges with negative numbers only. The first fault from the left is reported.
-/

namespace GroupCalendar

inductive NumeralError where
  | empty
  | invalidDigit
  | tooLarge
  | tooSmall
  deriving DecidableEq, Repr

def NumeralError.message : NumeralError → String
  | .empty => "cannot parse integer from empty string"
  | .invalidDigit => "invalid digit found in string"
  | .tooLarge => "number too large to fit in target type"
  | .tooSmall => "number too small to fit in target type"

/-- The value of an ASCII digit. -/
def digit? (c : Char) : Option Nat :=
  if '0' ≤ c ∧ c ≤ '9' then some (c.toNat - '0'.toNat) else none

/-- The value of an ASCII hexadecimal digit. -/
def hexDigit? (c : Char) : Option Nat :=
  if '0' ≤ c ∧ c ≤ '9' then some (c.toNat - '0'.toNat)
  else if 'a' ≤ c ∧ c ≤ 'f' then some (c.toNat - 'a'.toNat + 10)
  else if 'A' ≤ c ∧ c ≤ 'F' then some (c.toNat - 'A'.toNat + 10)
  else none

/-- A range of integers with both ends. -/
structure IntegerRange where
  low : Int
  high : Int

namespace IntegerRange

def i32 : IntegerRange := ⟨-2147483648, 2147483647⟩
def i64 : IntegerRange := ⟨-9223372036854775808, 9223372036854775807⟩
def u16 : IntegerRange := ⟨0, 65535⟩
def u32 : IntegerRange := ⟨0, 4294967295⟩
def u64 : IntegerRange := ⟨0, 18446744073709551615⟩

def contains (r : IntegerRange) (n : Int) : Bool :=
  r.low ≤ n && n ≤ r.high

/-- Digits added to a value read so far, away from zero when `positive` holds. -/
def readDigits (r : IntegerRange) (positive : Bool) : Int → List Char → Except NumeralError Int
  | n, [] => .ok n
  | n, c :: rest =>
    match digit? c with
    | none => .error .invalidDigit
    | some d =>
      let n := if positive then n * 10 + d else n * 10 - d
      if r.contains n then r.readDigits positive n rest
      else .error (if positive then .tooLarge else .tooSmall)

/-- The integer of a numeral, if it lies in the range. -/
def read (r : IntegerRange) (text : List Char) : Except NumeralError Int :=
  match text with
  | [] => .error .empty
  | ['+'] | ['-'] => .error .invalidDigit
  | '+' :: digits => r.readDigits true 0 digits
  | '-' :: digits =>
    if r.low < 0 then r.readDigits false 0 digits else .error .invalidDigit
  | digits => r.readDigits true 0 digits

end IntegerRange

/-- Decimal digits of a number, padded with zeros to a width. -/
def padDigits (width n : Nat) : String :=
  let digits := Nat.toDigits 10 n
  String.ofList (List.replicate (width - digits.length) '0' ++ digits)

end GroupCalendar
