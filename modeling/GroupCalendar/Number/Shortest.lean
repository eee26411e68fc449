import GroupCalendar.Number.Binary64
import GroupCalendar.Number.Numeral

/-! # Shortest decimals

The decimal with the fewest digits that rounds to a given double-precision number, the nearest one
among those, and its notations. Reading of decimals stands here too.
-/

namespace GroupCalendar

/-- The number `digits * 10 ^ exponent`. -/
structure Decimal where
  digits : Nat
  exponent : Int
  deriving DecidableEq, Repr

namespace Decimal

/-- Trailing zeros of the digits moved into the exponent. -/
def strip (d : Decimal) : Decimal :=
  go 20 d.digits d.exponent
where
  go : Nat → Nat → Int → Decimal
    | 0, n, e => ⟨n, e⟩
    | fuel + 1, n, e => if n ≠ 0 ∧ n % 10 = 0 then go fuel (n / 10) (e + 1) else ⟨n, e⟩

end Decimal

namespace Binary64

/-- Numerators, over one denominator, of a number and of the ends of the interval that rounds to
it. The interval below a power of two is half as wide. -/
def interval (mantissa : Nat) (exponent : Int) : Nat × Nat × Nat × Nat :=
  let (value, den) := ratio (4 * mantissa) exponent
  let unit := (ratio 1 exponent).1 * (den / (ratio 1 exponent).2)
  let below := if mantissa = 4503599627370496 ∧ leastExponent < exponent then unit else 2 * unit
  (value - below, value, value + 2 * unit, 4 * den)

/-- The exponent `k` with `10 ^ (k - 1) ≤ num / den < 10 ^ k`. -/
def decimalPosition (num den : Nat) : Int :=
  let guess : Int := ((num.log2 : Int) - den.log2) * 30103 / 100000
  let reaches (k : Int) : Bool :=
    if 0 ≤ k then den * Nat.pow 10 k.toNat ≤ num else den ≤ num * Nat.pow 10 (-k).toNat
  let rec climb : Nat → Int → Int
    | 0, k => k
    | fuel + 1, k => if reaches k then climb fuel (k + 1) else k
  climb 6 (guess - 2)

/-- A neighbour of the number on the grid of `n` digits that lies in its interval. -/
def onGrid? (mantissa : Nat) (exponent : Int) (n : Nat) : Option Decimal :=
  let (low, value, high, den) := interval mantissa exponent
  let e := decimalPosition value den - n
  let (up, down) := if 0 ≤ e then (1, Nat.pow 10 e.toNat) else (Nat.pow 10 (-e).toNat, 1)
  -- all distances are taken over the denominator `den * down`
  let below := value * up / (den * down)
  let position (d : Nat) : Nat := d * den * down
  let inside (d : Nat) : Bool :=
    if mantissa % 2 = 0 then low * up ≤ position d && position d ≤ high * up
    else low * up < position d && position d < high * up
  let above := below + 1
  match inside below, inside above with
  | false, false => none
  | true, false => some ⟨below, e⟩
  | false, true => some ⟨above, e⟩
  | true, true =>
    let left := value * up - position below
    let right := position above - value * up
    if left < right ∨ (left = right ∧ below % 2 = 0) then some ⟨below, e⟩ else some ⟨above, e⟩

/-- The shortest decimal of a finite magnitude other than zero. -/
def shortest (mantissa : Nat) (exponent : Int) : Decimal :=
  match (List.range 17).findSome? fun n => onGrid? mantissa exponent (n + 1) with
  | some d => d.strip
  | none => ⟨mantissa, exponent⟩

/-- Digits with a point at `position`, padded with zeros where the digits do not reach. -/
def positional (digits : List Char) (position : Int) : List Char :=
  if position ≤ 0 then
    '0' :: '.' :: (List.replicate (-position).toNat '0' ++ digits)
  else if digits.length ≤ position.toNat then
    digits ++ List.replicate (position.toNat - digits.length) '0'
  else digits.take position.toNat ++ '.' :: digits.drop position.toNat

/-- A text of whole digits gets a point and a zero. -/
def withPoint (cs : List Char) : List Char :=
  if '.' ∈ cs then cs else cs ++ ['.', '0']

/-- Digits, then the exponent with its sign. -/
def scientific (digits : List Char) (position : Int) : List Char :=
  let e := position - 1
  let mantissa := match digits with
    | [d] => [d]
    | d :: rest => d :: '.' :: rest
    | [] => []
  mantissa ++ 'e' :: (if e < 0 then '-' else '+') :: Nat.toDigits 10 e.natAbs

/-- Text of a number: positional from `1e-5` up to sixteen whole digits, else scientific. -/
def toText : Binary64 → String
  | .nan => "NaN"
  | .infinite s => if s then "-inf" else "inf"
  | .finite s m e =>
    let sign := if s then ['-'] else []
    if m = 0 then String.ofList (sign ++ ['0', '.', '0'])
    else
      let d := shortest m e
      let digits := Nat.toDigits 10 d.digits
      let position := digits.length + d.exponent
      String.ofList <| sign ++
        if -5 < position ∧ position ≤ 16 then withPoint (positional digits position)
        else scientific digits position

/-- Text of a number without exponent notation. -/
def toPositional : Binary64 → String
  | .nan => "NaN"
  | .infinite s => if s then "-inf" else "inf"
  | .finite s m e =>
    let sign := if s then ['-'] else []
    if m = 0 then String.ofList (sign ++ ['0', '.', '0'])
    else
      let d := shortest m e
      let digits := Nat.toDigits 10 d.digits
      String.ofList (sign ++ withPoint (positional digits (digits.length + d.exponent)))

end Binary64

inductive FloatError where
  | empty
  | invalid
  deriving DecidableEq, Repr

def FloatError.message : FloatError → String
  | .empty => "cannot parse float from empty string"
  | .invalid => "invalid float literal"

namespace Binary64

/-- The digits at the front as a number, how many there are, and what follows them. -/
def takeDigits : Nat → Nat → List Char → Nat × Nat × List Char
  | n, count, [] => (n, count, [])
  | n, count, c :: rest =>
    match digit? c with
    | some d => takeDigits (n * 10 + d) (count + 1) rest
    | none => (n, count, c :: rest)

/-- The exponent part that ends a decimal; `none` if it is malformed. -/
def readExponent? : List Char → Option Int
  | [] => some 0
  | c :: rest =>
    if c = 'e' ∨ c = 'E' then
      let (negative, rest) := match rest with
        | '+' :: r => (false, r)
        | '-' :: r => (true, r)
        | r => (false, r)
      match takeDigits 0 0 rest with
      | (n, _ + 1, []) => some (if negative then -n else n)
      | _ => none
    else none

/-- The number of an unsigned decimal: digits with an optional point and exponent. -/
def readMagnitude? (negative : Bool) (text : List Char) : Option Binary64 :=
  let lower := text.map Char.toLower
  if lower = "inf".toList ∨ lower = "infinity".toList then some (.infinite negative)
  else if lower = "nan".toList then some .nan
  else
    let (whole, wholeCount, rest) := takeDigits 0 0 text
    let (all, fractionCount, rest) := match rest with
      | '.' :: r => takeDigits whole 0 r
      | r => (whole, 0, r)
    if wholeCount + fractionCount = 0 then none
    else (readExponent? rest).map fun e => ofDecimal negative all (e - fractionCount)

/-- The number nearest to a decimal text. -/
def read (text : List Char) : Except FloatError Binary64 :=
  let result := match text with
    | [] => none
    | '+' :: r => readMagnitude? false r
    | '-' :: r => readMagnitude? true r
    | r => readMagnitude? false r
  match text, result with
  | [], _ => .error .empty
  | _, some x => .ok x
  | _, none => .error .invalid

end Binary64

end GroupCalendar
