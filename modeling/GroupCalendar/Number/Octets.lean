/-! # Numbers as octets

Natural numbers as octets, most significant first, and powers in modular arithmetic.
-/

namespace GroupCalendar

/-- Octets of a number, most significant first. -/
def octetsOf (width n : Nat) : List UInt8 :=
  (List.range width).map fun i => .ofNat (n >>> (8 * (width - 1 - i)) % 256)

/-- The number that octets stand for. -/
def numberOf (octets : List UInt8) : Nat :=
  octets.foldl (fun n b => n * 256 + b.toNat) 0

/-- Number of bits of a number. -/
def bitCount (n : Nat) : Nat :=
  if n = 0 then 0 else n.log2 + 1

/-- A power by repeated squaring. -/
def powMod (base modulus exponent : Nat) : Nat :=
  if exponent = 0 then 1 % modulus
  else
    let half := powMod base modulus (exponent / 2)
    let square := half * half % modulus
    if exponent % 2 = 1 then square * base % modulus else square
termination_by exponent
decreasing_by omega

end GroupCalendar
