import GroupCalendar.Record

/-! # Formats of values

What a format needs so that records can be written in it and read from it: texts, lists and
records, and null for an absent value where it is read.
-/

namespace GroupCalendar

/-- How values are written in a format. -/
structure Encoding (ν : Type) where
  text : String → ν
  list : List ν → ν
  record : Fields ν → ν

/-- How values are read from a format. Records carry their name for the messages. -/
structure Decoding (ν ε : Type) where
  text : ν → Except ε String
  /-- The value itself, unless it is null. -/
  present? : ν → Option ν
  record : {ρ : Type} → String → List (Record.Field ν ε ρ) → ρ → ν → Except ε ρ
  records : {ρ : Type} → String → List (Record.Field ν ε ρ) → ρ → ν → Except ε (List ρ)
  invalid : String → ε

namespace Decoding

variable {ν ε α ρ : Type}

/-- A value that may be null. -/
def option (d : Decoding ν ε) (read : ν → Except ε α) (v : ν) : Except ε (Option α) :=
  match d.present? v with
  | none => .ok none
  | some v => some <$> read v

/-- A text with a default. -/
def textField (d : Decoding ν ε) (name : String) (set : String → ρ → ρ) :
    Record.Field ν ε ρ :=
  .defaulted name fun v r => return set (← d.text v) r

end Decoding

end GroupCalendar
