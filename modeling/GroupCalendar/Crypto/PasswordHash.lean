import GroupCalendar.Crypto.Blowfish
import GroupCalendar.Crypto.Sha256
import GroupCalendar.Encoding.Base64
import GroupCalendar.Number.Numeral
import GroupCalendar.Text.Split
import GroupCalendar.Text.Utf8

/-! # Password hashes

Hashes of the form `$2b$04$…`: a version, a cost, a salt of 16 octets and a hash of 23. Only the
first 72 octets of a password count, its end mark included. A malformed hash matches no password.
-/

namespace GroupCalendar

structure PasswordHash where
  cost : Nat
  salt : List UInt8
  hash : List UInt8

namespace PasswordHash

/-- The hash of a text, if it is well formed. -/
def parse? (text : String) : Option PasswordHash :=
  match (Text.splitAt '$' text.toList).filter (!·.isEmpty) with
  | [version, cost, rest] =>
    if ["2a".toList, "2b".toList, "2x".toList, "2y".toList].contains version then
      match IntegerRange.u32.read cost with
      | .error _ => none
      | .ok cost =>
        let bytes := Text.Utf8.encodeChars rest
        if 4 ≤ cost ∧ cost ≤ 31 ∧ bytes.length = 53 then do
          let salt ← (Base64.passwordHash.decode (bytes.take 22)).toOption
          let hash ← (Base64.passwordHash.decode (bytes.drop 22)).toOption
          return ⟨cost.toNat, salt, hash⟩
        else none
    else none
  | _ => none

/-- `OrpheanBeholderScryDoubt` -/
def plaintext : List UInt32 :=
  Sha256.words (Text.Utf8.encode "OrpheanBeholderScryDoubt")

/-- Blocks of two words, each enciphered 64 times. -/
def encipherBlocks (t : Blowfish.Tables) : List UInt32 → List UInt32
  | l :: r :: rest =>
    let (l, r) := Blowfish.encipherRepeatedly t 64 (l, r)
    l :: r :: encipherBlocks t rest
  | _ => []

/-- The first 23 octets of the enciphered plaintext. -/
def compute (cost : Nat) (salt password : List UInt8) : List UInt8 :=
  let t := Blowfish.setup cost salt ((password ++ [0]).take 72)
  ((encipherBlocks t plaintext).flatMap fun w => octetsOf 4 w.toNat).take 23

/-- A password has the hash. -/
def verify (h : PasswordHash) (password : String) : Bool :=
  compute h.cost h.salt (Text.Utf8.encode password) = h.hash

/-- A password has the hash that a text describes. -/
def matchesText (text password : String) : Bool :=
  (parse? text).any (·.verify password)

end PasswordHash

end GroupCalendar
