import GroupCalendar.Crypto.Sha256

/-! # RSA keys

A private key with its two primes, and signatures of SHA-256 digests with it. Keys are read from
DER in its strict form, and only when their parts fit together as far as that can be seen without
factoring: the modulus has 2048 to 4096 bits and is the product of two numbers of half its size.
-/

namespace GroupCalendar

/-- Why a key is refused. -/
inductive RsaKeyError where
  | invalidEncoding
  | unsupportedVersion
  | tooSmall
  | tooLarge
  | invalidComponent
  | invalidPrimeSize
  | inconsistent
  | degenerate
  deriving DecidableEq, Repr

def RsaKeyError.message : RsaKeyError → String
  | .invalidEncoding => "InvalidEncoding"
  | .unsupportedVersion => "VersionNotSupported"
  | .tooSmall => "TooSmall"
  | .tooLarge => "TooLarge"
  | .invalidComponent => "InvalidComponent"
  | .invalidPrimeSize => "PrivateModulusLenNotMultipleOf512Bits"
  | .inconsistent => "InconsistentComponents"
  | .degenerate => "UnexpectedError"

structure RsaKey where
  modulus : Nat
  publicExponent : Nat
  privateExponent : Nat
  p : Nat
  q : Nat
  /-- The private exponent modulo `p - 1`. -/
  exponentP : Nat
  /-- The private exponent modulo `q - 1`. -/
  exponentQ : Nat
  /-- The inverse of `q` modulo `p`. -/
  coefficient : Nat
  deriving DecidableEq

namespace RsaKey

abbrev Checked := Except RsaKeyError

def ensure (condition : Bool) (e : RsaKeyError) : Checked Unit :=
  if condition then .ok () else .error e

section Checks

/-- An odd number above two of the size that an odd modulus may have. -/
def checkOdd (n : Nat) : Checked Unit := do
  ensure (n ≠ 0) .invalidEncoding
  ensure (bitCount n ≤ 8192) .tooLarge
  ensure (192 < bitCount n) .degenerate
  ensure (n % 2 = 1) .invalidComponent

def checkModulus (n : Nat) : Checked Unit := do
  checkOdd n
  ensure (2040 < bitCount n) .tooSmall
  ensure (bitCount n ≤ 4096) .tooLarge

def checkPublicExponent (e : Nat) : Checked Unit := do
  ensure (bitCount e ≤ 40) .tooLarge
  ensure (e ≠ 0) .invalidEncoding
  ensure (65537 ≤ e) .tooSmall
  ensure (bitCount e ≤ 33) .tooLarge
  ensure (e % 2 = 1) .invalidComponent

/-- Half the bits of the modulus, rounded up. -/
def halfBits (k : RsaKey) : Nat :=
  (bitCount k.modulus + 1) / 2

def checkPrime (k : RsaKey) (prime : Nat) : Checked Unit := do
  checkOdd prime
  ensure (bitCount prime = k.halfBits) .inconsistent
  ensure (bitCount prime % 512 = 0) .invalidPrimeSize

def checkPrivateExponent (k : RsaKey) : Checked Unit := do
  ensure (checkOdd k.privateExponent).isOk .invalidComponent
  ensure (k.halfBits < bitCount k.privateExponent) .inconsistent
  ensure (k.privateExponent < k.modulus) .inconsistent

/-- The parts of the key fit together. -/
def check (k : RsaKey) : Checked Unit := do
  checkModulus k.modulus
  checkPublicExponent k.publicExponent
  k.checkPrime k.p
  k.checkPrime k.q
  ensure (k.p * k.q % k.modulus = 0) .inconsistent
  k.checkPrivateExponent
  ensure (k.coefficient < k.p) .invalidComponent
  ensure (k.coefficient * k.q % k.p = 1) .inconsistent
  ensure (k.exponentP < k.p && k.exponentP % 2 = 1) .inconsistent
  ensure (k.exponentQ < k.q && k.exponentQ % 2 = 1) .inconsistent

end Checks

section Reading

/-- The contents of the element with a tag at the front, and what follows it. Lengths are written
in their shortest form and take two octets at most. -/
def element? (tag : UInt8) : List UInt8 → Option (List UInt8 × List UInt8)
  | t :: n :: rest => do
    if t ≠ tag then none
    let (length, rest) ←
      match n, rest with
      | 0x81, x :: rest => if x < 0x80 then none else some (x.toNat, rest)
      | 0x82, x :: y :: rest => if x = 0 then none else some (x.toNat * 256 + y.toNat, rest)
      | n, rest => if n < 0x80 then some (n.toNat, rest) else none
    if rest.length < length then none
    return (rest.take length, rest.drop length)
  | _ => none

/-- A number that is not negative, without needless zeros before it. -/
def number? (text : List UInt8) : Option (Nat × List UInt8) := do
  let (contents, rest) ← element? 0x02 text
  match contents with
  | [] => none
  | 0 :: b :: _ => if b < 0x80 then none else some (numberOf contents, rest)
  | b :: _ => if b < 0x80 then some (numberOf contents, rest) else none

/-- As many numbers as asked for. -/
def numbers? : Nat → List UInt8 → Option (List Nat × List UInt8)
  | 0, text => some ([], text)
  | count + 1, text => do
    let (n, rest) ← number? text
    let (ns, rest) ← numbers? count rest
    return (n :: ns, rest)

/-- The key in a DER text. -/
def read (text : List UInt8) : Checked RsaKey := do
  let encoded {α : Type} (x : Option α) : Checked α := x.elim (.error .invalidEncoding) .ok
  let (contents, after) ← encoded (element? 0x30 text)
  let (version, contents) ← encoded (number? contents)
  ensure (version < 256) .invalidEncoding
  ensure (version = 0) .unsupportedVersion
  match ← encoded (numbers? 8 contents) with
  | ([n, e, d, p, q, dp, dq, c], rest) =>
    let k : RsaKey := ⟨n, e, d, p, q, dp, dq, c⟩
    k.check
    ensure (rest.isEmpty && after.isEmpty) .invalidEncoding
    return k
  | _ => throw .invalidEncoding

end Reading

section Signing

/-- Number of octets of the modulus. -/
def width (k : RsaKey) : Nat :=
  (bitCount k.modulus + 7) / 8

/-- What stands before a SHA-256 digest. -/
def digestInfo : List UInt8 :=
  [0x30, 0x31, 0x30, 0x0D, 0x06, 0x09, 0x60, 0x86, 0x48, 0x01, 0x65, 0x03, 0x04, 0x02, 0x01, 0x05,
    0x00, 0x04, 0x20]

/-- The digest of a message, padded to a width. -/
def padded (width : Nat) (message : List UInt8) : List UInt8 :=
  let digest := digestInfo ++ Sha256.digest message
  0x00 :: 0x01 :: List.replicate (width - 3 - digest.length) 0xFF ++ 0x00 :: digest

/-- The private power of a number, computed modulo either prime. -/
def power (k : RsaKey) (m : Nat) : Nat :=
  let mp := powMod m k.p k.exponentP
  let mq := powMod m k.q k.exponentQ
  mq + k.q * ((mp + k.p - mq % k.p) * k.coefficient % k.p)

/-- The signature of a message, if the public exponent undoes it. -/
def sign? (k : RsaKey) (message : List UInt8) : Option (List UInt8) :=
  let m := numberOf (padded k.width message)
  let s := k.power m
  if powMod s k.modulus k.publicExponent = m then some (octetsOf k.width s) else none

end Signing

end RsaKey

end GroupCalendar
