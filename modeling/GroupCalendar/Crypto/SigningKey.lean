import GroupCalendar.Crypto.Der
import GroupCalendar.Crypto.Pem
import GroupCalendar.Crypto.RsaKey

/-! # Signing keys

An RSA key in a PEM text, either the key itself or wrapped together with the name of its algorithm.
-/

namespace GroupCalendar

inductive SigningError where
  | invalidFormat
  /-- A wrapped key without octets. -/
  | emptyKey
  | invalidKey (e : RsaKeyError)
  | failed
  deriving DecidableEq, Repr

def SigningError.message : SigningError → String
  | .invalidFormat => "InvalidKeyFormat"
  | .emptyKey => "InvalidEcdsaKey"
  | .invalidKey e => s!"RSA key invalid: {e.message}"
  | .failed => "RsaFailedSigning"

namespace SigningKey

/-- Algorithms that are told apart by the identifiers in a wrapped key. -/
inductive Algorithm where
  | rsa
  | ellipticCurve
  | edwardsCurve
  deriving DecidableEq

def Algorithm.ofElement? : Der → Option Algorithm
  | .identifier arcs =>
    if arcs = [1, 2, 840, 113549, 1, 1, 1] then some .rsa
    else if arcs = [1, 2, 840, 10045, 2, 1] then some .ellipticCurve
    else if arcs = [1, 3, 101, 112] then some .edwardsCurve
    else none
  | _ => none

def octets? : Der → Option (List UInt8)
  | .octets contents => some contents
  | _ => none

/-- Labels of an RSA key alone. -/
def bareLabels : List String := ["RSA PRIVATE KEY", "RSA PUBLIC KEY"]

/-- Labels of a key with the name of its algorithm. -/
def wrappedLabels : List String := ["PRIVATE KEY", "PUBLIC KEY", "CERTIFICATE"]

/-- The DER text of the RSA key in a PEM text. -/
def unwrap (text : List UInt8) : Except SigningError (List UInt8) :=
  let known {α : Type} (x : Option α) : Except SigningError α :=
    x.elim (.error .invalidFormat) .ok
  do
    let pem ← known (Pem.parse? text)
    let elements ← known (Der.parse? pem.contents)
    if bareLabels.contains pem.label then return pem.contents
    if !wrappedLabels.contains pem.label then throw .invalidFormat
    if (← known (Der.first? Algorithm.ofElement? elements)) ≠ .rsa then throw .invalidFormat
    (Der.first? octets? elements).elim (.error .emptyKey) .ok

/-- The RSA key in a PEM text. -/
def read (text : List UInt8) : Except SigningError RsaKey := do
  (RsaKey.read (← unwrap text)).mapError .invalidKey

end SigningKey

end GroupCalendar
