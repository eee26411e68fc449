/-! # Base64

Octets as texts over an alphabet of 64 characters, with or without padding. Reading is strict: it
accepts canonical texts only, and reports the first fault with its place.
-/

namespace GroupCalendar

/-- The characters for 0 to 63 and whether the last group is padded. -/
structure Base64 where
  alphabet : String
  padded : Bool

inductive Base64Error where
  | invalidByte (offset : Nat) (byte : UInt8)
  | invalidLength (length : Nat)
  | invalidLastSymbol (offset : Nat) (byte : UInt8)
  | invalidPadding
  deriving DecidableEq, Repr

def Base64Error.message : Base64Error → String
  | .invalidByte offset byte => s!"Invalid symbol {byte.toNat}, offset {offset}."
  | .invalidLength length => s!"Invalid input length: {length}"
  | .invalidLastSymbol offset byte => s!"Invalid last symbol {byte.toNat}, offset {offset}."
  | .invalidPadding => "Invalid padding"

namespace Base64

def standard : Base64 :=
  ⟨"ABCDEFGHIJKLMNOPQRSTUVWXYZabcdefghijklmnopqrstuvwxyz0123456789+/", true⟩

def urlSafe : Base64 :=
  ⟨"ABCDEFGHIJKLMNOPQRSTUVWXYZabcdefghijklmnopqrstuvwxyz0123456789-_", true⟩

def urlSafeUnpadded : Base64 := { urlSafe with padded := false }

/-- The alphabet of password hashes. -/
def passwordHash : Base64 :=
  ⟨"./ABCDEFGHIJKLMNOPQRSTUVWXYZabcdefghijklmnopqrstuvwxyz0123456789", false⟩

/-- The character for a number below 64. -/
def symbol (b : Base64) (n : Nat) : Char :=
  b.alphabet.toList.getD n 'A'

/-- The number a character stands for. -/
def value? (b : Base64) (c : UInt8) : Option Nat :=
  b.alphabet.toList.findIdx? (·.toNat = c.toNat)

def padding (b : Base64) (n : Nat) : List Char :=
  if b.padded then List.replicate n '=' else []

/-- The characters of octets, in groups of four for three octets. -/
def encodeChars (b : Base64) : List UInt8 → List Char
  | [] => []
  | [x] =>
    let n := x.toNat * 16
    [b.symbol (n / 64), b.symbol (n % 64)] ++ b.padding 2
  | [x, y] =>
    let n := (x.toNat * 256 + y.toNat) * 4
    [b.symbol (n / 4096), b.symbol (n / 64 % 64), b.symbol (n % 64)] ++ b.padding 1
  | x :: y :: z :: rest =>
    let n := x.toNat * 65536 + y.toNat * 256 + z.toNat
    b.symbol (n / 262144) :: b.symbol (n / 4096 % 64) :: b.symbol (n / 64 % 64) ::
      b.symbol (n % 64) :: encodeChars b rest

def encode (b : Base64) (bytes : List UInt8) : String :=
  String.ofList (b.encodeChars bytes)

/-- A symbol's number, or a fault at its place. -/
def symbolAt (b : Base64) (offset : Nat) (c : UInt8) : Except Base64Error Nat :=
  match b.value? c with
  | some n => .ok n
  | none => .error (.invalidByte offset c)

/-- The numbers of symbols, of which the first stands at an offset. -/
def symbolsAt (b : Base64) : Nat → List UInt8 → Except Base64Error (List Nat)
  | _, [] => .ok []
  | offset, c :: rest => do
    let n ← b.symbolAt offset c
    return n :: (← symbolsAt b (offset + 1) rest)

/-- The padding behind a number of symbols is complete, or absent where there is none. -/
def padsExactly (b : Base64) (symbols pads : Nat) : Bool :=
  if b.padded then (symbols + pads) % 4 = 0 else pads = 0

/-- The octets of the last group. Padding starts behind two symbols at the earliest and nothing
follows it; the bits that belong to no octet are zero. -/
def decodeLast (b : Base64) (offset : Nat) (group : List UInt8) :
    Except Base64Error (List UInt8) := do
  let symbols := group.takeWhile (· ≠ 0x3D)
  let pads := group.dropWhile (· ≠ 0x3D)
  let numbers ← b.symbolsAt offset symbols
  if !pads.isEmpty && (symbols.length < 2 || pads.any (· ≠ 0x3D)) then
    throw (.invalidByte (offset + symbols.length) 0x3D)
  match numbers with
  | [] => return []
  | [_] => throw (.invalidLength (offset + 1))
  | [x, y] =>
    if !b.padsExactly 2 pads.length then throw .invalidPadding
    if y % 16 ≠ 0 then throw (.invalidLastSymbol (offset + 1) (group.getD 1 0))
    return [.ofNat (x * 4 + y / 16)]
  | [x, y, z] =>
    if !b.padsExactly 3 pads.length then throw .invalidPadding
    if z % 4 ≠ 0 then throw (.invalidLastSymbol (offset + 2) (group.getD 2 0))
    let n := x * 1024 + y * 16 + z / 4
    return [.ofNat (n / 256), .ofNat (n % 256)]
  | x :: y :: z :: w :: _ =>
    let n := x * 262144 + y * 4096 + z * 64 + w
    return [.ofNat (n / 65536), .ofNat (n / 256 % 256), .ofNat (n % 256)]

/-- The octets of groups of four symbols and a last group. -/
def decodeGroups (b : Base64) : Nat → List UInt8 → Except Base64Error (List UInt8)
  | offset, x :: y :: z :: w :: v :: rest => do
    let n := (← b.symbolAt offset x) * 262144 + (← b.symbolAt (offset + 1) y) * 4096 +
      (← b.symbolAt (offset + 2) z) * 64 + (← b.symbolAt (offset + 3) w)
    let bytes ← decodeGroups b (offset + 4) (v :: rest)
    return .ofNat (n / 65536) :: .ofNat (n / 256 % 256) :: .ofNat (n % 256) :: bytes
  | offset, last => b.decodeLast offset last

/-- The octets of a text. A foreign last octet that stands alone in its group is reported before
all other faults. -/
def decode (b : Base64) (text : List UInt8) : Except Base64Error (List UInt8) :=
  match text.getLast? with
  | some c =>
    if text.length % 4 = 1 ∧ c ≠ 0x3D ∧ (b.value? c).isNone then
      .error (.invalidByte (text.length - 1) c)
    else b.decodeGroups 0 text
  | none => .ok []

end Base64

end GroupCalendar
