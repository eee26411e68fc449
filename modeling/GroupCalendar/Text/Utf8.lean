/-! # UTF-8

Encoding of texts as octets and the two ways back. Strict decoding refuses a malformed sequence;
lossy decoding writes U+FFFD for every maximal part that begins a character and does not end one.
Both run over the octets once, with the unfinished character as their state.
-/

namespace GroupCalendar.Text.Utf8

/-- Octets of one character. -/
def encodeChar (c : Char) : List UInt8 :=
  let n := c.toNat
  if n < 0x80 then [.ofNat n]
  else if n < 0x800 then [.ofNat (0xC0 + n / 64), .ofNat (0x80 + n % 64)]
  else if n < 0x10000 then
    [.ofNat (0xE0 + n / 4096), .ofNat (0x80 + n / 64 % 64), .ofNat (0x80 + n % 64)]
  else
    [.ofNat (0xF0 + n / 262144), .ofNat (0x80 + n / 4096 % 64), .ofNat (0x80 + n / 64 % 64),
      .ofNat (0x80 + n % 64)]

def encodeChars (cs : List Char) : List UInt8 :=
  cs.flatMap encodeChar

def encode (s : String) : List UInt8 :=
  encodeChars s.toList

/-- A character whose last octets are still owed; the next one lies between `low` and `high`. -/
structure Pending where
  owed : Nat
  low : Nat
  high : Nat
  bits : Nat

inductive Step where
  | finished (c : Char)
  | unfinished (p : Pending)
  | malformed

/-- The state after the first octet of a character. -/
def start (b : UInt8) : Step :=
  let n := b.toNat
  if n < 0x80 then .finished (.ofNat n)
  else if n < 0xC2 then .malformed
  else if n < 0xE0 then .unfinished ⟨0, 0x80, 0xBF, n - 0xC0⟩
  else if n < 0xF0 then
    .unfinished ⟨1, if n = 0xE0 then 0xA0 else 0x80, if n = 0xED then 0x9F else 0xBF, n - 0xE0⟩
  else if n < 0xF5 then
    .unfinished ⟨2, if n = 0xF0 then 0x90 else 0x80, if n = 0xF4 then 0x8F else 0xBF, n - 0xF0⟩
  else .malformed

/-- The state after a further octet. -/
def Pending.next (p : Pending) (b : UInt8) : Step :=
  let n := b.toNat
  if p.low ≤ n && n ≤ p.high then
    let bits := p.bits * 64 + (n - 0x80)
    match p.owed with
    | 0 => .finished (.ofNat bits)
    | owed + 1 => .unfinished ⟨owed, 0x80, 0xBF, bits⟩
  else .malformed

/-- Strict decoding from a state. -/
def decodeFrom? : Option Pending → List UInt8 → Option (List Char)
  | none, [] => some []
  | some _, [] => none
  | state, b :: rest =>
    match state.elim (start b) (·.next b) with
    | .finished c => (decodeFrom? none rest).map (c :: ·)
    | .unfinished p => decodeFrom? (some p) rest
    | .malformed => none

def decodeChars? (bytes : List UInt8) : Option (List Char) :=
  decodeFrom? none bytes

/-- The text of well-formed octets. -/
def decode? (bytes : List UInt8) : Option String :=
  (decodeChars? bytes).map String.ofList

/-- Lossy decoding from a state; an octet that breaks off a character starts the next one. -/
def decodeLossyFrom : Option Pending → List UInt8 → List Char
  | none, [] => []
  | some _, [] => ['\uFFFD']
  | none, b :: rest =>
    match start b with
    | .finished c => c :: decodeLossyFrom none rest
    | .unfinished p => decodeLossyFrom (some p) rest
    | .malformed => '\uFFFD' :: decodeLossyFrom none rest
  | some p, b :: rest =>
    match p.next b with
    | .finished c => c :: decodeLossyFrom none rest
    | .unfinished q => decodeLossyFrom (some q) rest
    | .malformed =>
      '\uFFFD' ::
        match start b with
        | .finished c => c :: decodeLossyFrom none rest
        | .unfinished q => decodeLossyFrom (some q) rest
        | .malformed => '\uFFFD' :: decodeLossyFrom none rest

/-- The text of any octets. -/
def decodeLossy (bytes : List UInt8) : String :=
  String.ofList (decodeLossyFrom none bytes)

end GroupCalendar.Text.Utf8
