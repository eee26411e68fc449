/-! # Blowfish with an expensive key schedule

The block cipher behind password hashes. Its tables start as the binary digits of π; the key
schedule mixes a key and a salt into them again and again.
-/

namespace GroupCalendar.Blowfish

/-- The arc tangent of `1 / x`, times `scale`, by its series: `term` is `scale / x ^ (2 k + 1)`. -/
def arctanSeries (square : Nat) : Nat → Nat → Nat → Int → Int
  | 0, _, _, sum => sum
  | fuel + 1, k, term, sum =>
    if term = 0 then sum
    else
      let part : Int := (term / (2 * k + 1) : Nat)
      arctanSeries square fuel (k + 1) (term / square) (if k % 2 = 0 then sum + part else sum - part)

def arctan (scale x : Nat) : Int :=
  arctanSeries (x * x) 16000 0 (scale / x) 0

/-- Number of words in the tables. -/
def wordCount : Nat := 18 + 4 * 256

/-- The fraction of π as an integer with 32 binary digits for each word. -/
def fractionOfPi : Nat :=
  let bits := 32 * wordCount
  let scale := 1 <<< (bits + 64)
  let pi := 16 * arctan scale 5 - 4 * arctan scale 239
  pi.toNat >>> 64 % (1 <<< bits)

/-- The words of the fraction of π, the first one first. -/
def piWords : Array UInt32 :=
  let n := fractionOfPi
  (Array.range wordCount).map fun i => .ofNat (n >>> (32 * (wordCount - 1 - i)) % 4294967296)

/-- Subkeys and substitution boxes, the four boxes one behind the other. -/
structure Tables where
  keys : Array UInt32
  boxes : Array UInt32

def initial : Tables :=
  ⟨piWords.extract 0 18, piWords.extract 18 wordCount⟩

def mix (boxes : Array UInt32) (x : UInt32) : UInt32 :=
  let a := boxes.getD (x >>> 24).toNat 0
  let b := boxes.getD (256 + ((x >>> 16) &&& 0xFF).toNat) 0
  let c := boxes.getD (512 + ((x >>> 8) &&& 0xFF).toNat) 0
  let d := boxes.getD (768 + (x &&& 0xFF).toNat) 0
  ((a + b) ^^^ c) + d

/-- Rounds on two halves, two at a time. -/
def rounds (t : Tables) : Nat → Nat → UInt32 → UInt32 → UInt32 × UInt32
  | 0, _, l, r => (l, r)
  | n + 1, i, l, r =>
    let r := r ^^^ mix t.boxes l ^^^ t.keys.getD i 0
    let l := l ^^^ mix t.boxes r ^^^ t.keys.getD (i + 1) 0
    rounds t n (i + 2) l r

/-- A block under the cipher. -/
def encipher (t : Tables) (l r : UInt32) : UInt32 × UInt32 :=
  let (l, r) := rounds t 8 1 (l ^^^ t.keys.getD 0 0) r
  (r ^^^ t.keys.getD 17 0, l)

/-- The word that starts at an octet of a repeated text, and where the next one starts. -/
def cyclicWord (text : Array UInt8) (i : Nat) : UInt32 × Nat :=
  (List.range 4).foldl
    (fun (w, i) _ => (w <<< 8 ||| (text.getD i 0).toUInt32, if i + 1 < text.size then i + 1 else 0))
    (0, i)

/-- The words of a repeated text. -/
def cyclicWords (text : Array UInt8) : Nat → Nat → List UInt32
  | 0, _ => []
  | n + 1, i =>
    let (w, i) := cyclicWord text i
    w :: cyclicWords text n i

/-- The salt whose two halves are added in turn to the block that is enciphered. -/
abbrev Salt := UInt32 × UInt32 × UInt32 × UInt32

/-- Subkeys replaced pair by pair by the running block. -/
def replaceKeys (salt : Salt) : Nat → Nat → UInt32 → UInt32 → Tables → UInt32 × UInt32 × Tables
  | 0, _, l, r, t => (l, r, t)
  | n + 1, i, l, r, t =>
    let (a, b, c, d) := salt
    let (l, r) := if i % 4 = 0 then (l ^^^ a, r ^^^ b) else (l ^^^ c, r ^^^ d)
    let (l, r) := encipher t l r
    replaceKeys salt n (i + 2) l r
      { t with keys := (t.keys.setIfInBounds i l).setIfInBounds (i + 1) r }

/-- Boxes replaced pair by pair by the running block. -/
def replaceBoxes (salt : Salt) : Nat → Nat → UInt32 → UInt32 → Tables → Tables
  | 0, _, _, _, t => t
  | n + 1, i, l, r, t =>
    let (a, b, c, d) := salt
    let (l, r) := if i % 4 = 2 then (l ^^^ a, r ^^^ b) else (l ^^^ c, r ^^^ d)
    let (l, r) := encipher t l r
    replaceBoxes salt n (i + 2) l r
      { t with boxes := (t.boxes.setIfInBounds i l).setIfInBounds (i + 1) r }

/-- A key mixed into the subkeys, and then all tables replaced under a salt. -/
def expand (salt : Salt) (key : List UInt32) (t : Tables) : Tables :=
  let t := { t with keys := (t.keys.zip key.toArray).map fun (p, k) => p ^^^ k }
  let (l, r, t) := replaceKeys salt 9 0 0 0 t
  replaceBoxes salt 512 0 l r t

/-- Key and salt mixed in turn, so many times. -/
def expandRepeatedly (key salt : List UInt32) : Nat → Tables → Tables
  | 0, t => t
  | n + 1, t =>
    expandRepeatedly key salt n (expand (0, 0, 0, 0) salt (expand (0, 0, 0, 0) key t))

/-- The tables for a key and a salt at a cost, which doubles the work with every unit. -/
def setup (cost : Nat) (salt key : List UInt8) : Tables :=
  let keyWords := cyclicWords key.toArray 18 0
  let saltWords := cyclicWords salt.toArray 18 0
  let half : Salt := (saltWords.getD 0 0, saltWords.getD 1 0, saltWords.getD 2 0, saltWords.getD 3 0)
  expandRepeatedly keyWords saltWords (1 <<< cost) (expand half keyWords initial)

/-- A block enciphered so many times. -/
def encipherRepeatedly (t : Tables) : Nat → UInt32 × UInt32 → UInt32 × UInt32
  | 0, b => b
  | n + 1, (l, r) => encipherRepeatedly t n (encipher t l r)

end GroupCalendar.Blowfish
