import GroupCalendar.Crypto.SigningKey
import GroupCalendar.Proofs.Encoding.Pem
import Mathlib.Algebra.Group.Nat.Defs

/-! # Keys in PEM texts

A PEM text with the label of a bare key is read as the DER text in it. Powers are computed along
the bits of their exponents, and so is whether a key signs a message.
-/

namespace GroupCalendar

namespace SigningKey

/-- A bare key is read as its DER text is. -/
theorem read_toText {label : String} {der : List UInt8} (hlabel : label ∈ bareLabels)
    (hder : (Der.parse? der).isSome) :
    read (Pem.toText ⟨label, der⟩) = (RsaKey.read der).mapError .invalidKey := by
  obtain ⟨elements, helements⟩ := Option.isSome_iff_exists.mp hder
  have hne : der ≠ [] := by
    rintro rfl
    cases helements
  have hplain : label ≠ "" ∧ 0x2D ∉ Text.Utf8.encode label := by
    have hlabels : ∀ label ∈ bareLabels, label ≠ "" ∧ 0x2D ∉ Text.Utf8.encode label := by
      decide +kernel
    exact hlabels label hlabel
  have hunwrap : unwrap (Pem.toText ⟨label, der⟩) = .ok der := by
    have hcontains : bareLabels.contains label = true := List.contains_iff_mem.mpr hlabel
    unfold unwrap
    rw [Pem.parse?_toText hplain.1 hplain.2 hne]
    simp only [Option.elim, bind, Except.bind, helements, hcontains, if_true]
    rfl
  rw [read, hunwrap]
  rfl

end SigningKey

/-- A power along the bits of its exponent, of which there are at most so many. -/
def powBits (base modulus : Nat) : Nat → Nat → Nat
  | 0, _ => 1 % modulus
  | bits + 1, exponent =>
    let half := powBits base modulus bits (exponent / 2)
    let square := half * half % modulus
    if exponent % 2 = 1 then square * base % modulus else square

theorem powMod_eq_powBits {bits exponent : Nat} (base modulus : Nat) (h : exponent < 2 ^ bits) :
    powMod base modulus exponent = powBits base modulus bits exponent := by
  induction bits generalizing exponent with
  | zero =>
    obtain rfl : exponent = 0 := by omega
    rw [powMod]
    rfl
  | succ bits ih =>
    rw [powBits, ← ih (by omega)]
    by_cases h0 : exponent = 0
    · subst h0
      rw [powMod]
      simp
    · rw [powMod, if_neg h0]

namespace RsaKey

/-- The private power of a number, along the bits of the exponents. -/
def powerBits (k : RsaKey) (bits m : Nat) : Nat :=
  let mp := powBits m k.p bits k.exponentP
  let mq := powBits m k.q bits k.exponentQ
  mq + k.q * ((mp + k.p - mq % k.p) * k.coefficient % k.p)

/-- A message is signed if the public exponent undoes the private power of its digest. -/
theorem isSome_sign? {k : RsaKey} {message : List UInt8} (bits : Nat)
    (hp : k.exponentP < 2 ^ bits) (hq : k.exponentQ < 2 ^ bits) (he : k.publicExponent < 2 ^ bits)
    (h : powBits (k.powerBits bits (numberOf (padded k.width message))) k.modulus bits
      k.publicExponent = numberOf (padded k.width message)) : (k.sign? message).isSome := by
  have hpower (m : Nat) : k.power m = k.powerBits bits m := by
    rw [power, powMod_eq_powBits m k.p hp, powMod_eq_powBits m k.q hq]
    rfl
  simp only [sign?, hpower, powMod_eq_powBits _ _ he, h]
  rfl

end RsaKey

section Sample

/-- An element of a DER text. -/
def derElement (tag : UInt8) (contents : List UInt8) : List UInt8 :=
  let length := contents.length
  let shown := if length < 128 then [.ofNat length] else if length < 256 then [0x81, .ofNat length]
    else 0x82 :: octetsOf 2 length
  tag :: shown ++ contents

def derNumber (n : Nat) : List UInt8 :=
  derElement 0x02 (octetsOf (bitCount n / 8 + 1) n)

/-- A key of the two last primes below `2 ^ 1024`. -/
def sampleKey : RsaKey :=
  let p := 2 ^ 1024 - 105
  let q := 2 ^ 1024 - 179
  { modulus := p * q
    publicExponent := 65537
    privateExponent := p * q - 2
    p, q
    exponentP := (1 + 23094 * (p - 1)) / 65537
    exponentQ := (1 + 25629 * (q - 1)) / 65537
    coefficient := (5 * p - 1) / 74 }

def sampleDer : List UInt8 :=
  derElement 0x30 ([0, sampleKey.modulus, sampleKey.publicExponent, sampleKey.privateExponent,
    sampleKey.p, sampleKey.q, sampleKey.exponentP, sampleKey.exponentQ,
    sampleKey.coefficient].flatMap derNumber)

def samplePem : List UInt8 := Pem.toText ⟨"RSA PRIVATE KEY", sampleDer⟩

theorem read_samplePem : SigningKey.read samplePem = .ok sampleKey := by
  rw [samplePem, SigningKey.read_toText (by decide) (by decide +kernel)]
  have hkey : (RsaKey.read sampleDer).toOption = some sampleKey := by decide +kernel
  cases hread : RsaKey.read sampleDer with
  | error e => simp [hread, Except.toOption] at hkey
  | ok k =>
    rw [hread] at hkey
    obtain rfl : k = sampleKey := Option.some.inj hkey
    rfl

end Sample

end GroupCalendar
