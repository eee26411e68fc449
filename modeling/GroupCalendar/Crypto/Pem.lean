import GroupCalendar.Encoding.Base64
import GroupCalendar.Text.Blank
import GroupCalendar.Text.Split
import GroupCalendar.Text.Utf8

/-! # PEM texts

A text with a label in its first and its last line and octets in Base64 between them. Lines with
names and values may stand before an empty line; whatever stands around the whole is passed over.
-/

namespace GroupCalendar

structure Pem where
  label : String
  contents : List UInt8

namespace Pem

/-- What stands before a mark and what stands after it. The mark is looked for without stepping
back, so that one which begins within the broken-off beginning of another is passed over. -/
def cutAtMark (mark : List UInt8) (text : List UInt8) : Option (List UInt8 × List UInt8) :=
  go mark [] text
where
  go : List UInt8 → List UInt8 → List UInt8 → Option (List UInt8 × List UInt8)
    | [], before, rest => some ((before.drop mark.length).reverse, rest)
    | _ :: _, _, [] => none
    | m :: owed, before, b :: rest =>
      if b = m then go owed (b :: before) rest else go mark (b :: before) rest

def isSpace (b : UInt8) : Bool :=
  b = 0x20 || b = 0x0A || b = 0x0D || b = 0x09

/-- The lines with names and values, and the octets behind them. -/
def cutHeaders (body : List UInt8) : List UInt8 × List UInt8 :=
  (cutAtMark [0x0A, 0x0A] body <|> cutAtMark [0x0D, 0x0A, 0x0D, 0x0A] body).getD ([], body)

/-- Every line has a colon or is empty. -/
def areHeaders (text : String) : Bool :=
  ((Text.splitAt '\n' text.toList).map Text.trimEnd).all fun line =>
    line.isEmpty || line.contains ':'

/-- The first PEM text within a text. -/
def parse? (text : List UInt8) : Option Pem := do
  let dashes := Text.Utf8.encode "-----"
  let (_, rest) ← cutAtMark (Text.Utf8.encode "-----BEGIN ") text
  let (first, rest) ← cutAtMark dashes rest
  let (body, rest) ← cutAtMark (Text.Utf8.encode "-----END ") (rest.dropWhile isSpace)
  let (last, _) ← cutAtMark dashes rest
  let (headers, data) := cutHeaders body
  let label ← Text.Utf8.decode? first
  if first ≠ last ∨ label.isEmpty then none
  let data ← Text.Utf8.decodeChars? data
  if !areHeaders (← Text.Utf8.decode? headers) then none
  let symbols := Text.Utf8.encodeChars (data.filter fun c => !Text.isBlank c)
  return ⟨label, ← (Base64.standard.decode symbols).toOption⟩

end Pem

end GroupCalendar
