import GroupCalendar.Fields

/-! # Reading records

A record is read from values under names or from values in a row. Each declared field says how a
value changes the record read so far. Named values are taken in the order of their names, and only
then the required fields that were not named are reported, the first declared one first.
-/

namespace GroupCalendar.Record

variable {ν ε ρ : Type}

/-- A declared field of a record `ρ` read from values `ν`. -/
structure Field (ν ε ρ : Type) where
  name : String
  /-- Reading by name fails without the field. -/
  required : Bool
  /-- Reading in a row fails without the field. -/
  positional : Bool
  set : ν → ρ → Except ε ρ

/-- A field without which no record can be read. -/
def Field.mandatory (name : String) (set : ν → ρ → Except ε ρ) : Field ν ε ρ :=
  ⟨name, true, true, set⟩

/-- A field with a default. -/
def Field.defaulted (name : String) (set : ν → ρ → Except ε ρ) : Field ν ε ρ :=
  ⟨name, false, false, set⟩

/-- A field that may be left out where values have names, but not in a row. -/
def Field.optional (name : String) (set : ν → ρ → Except ε ρ) : Field ν ε ρ :=
  ⟨name, false, true, set⟩

/-- Each value of a declared field is set, every other one is passed to `skip`. -/
def setNamed (fields : List (Field ν ε ρ)) (skip : ν → Except ε Unit) :
    List (String × ν) → ρ → Except ε ρ
  | [], r => .ok r
  | (name, v) :: rest, r => do
    match fields.find? (·.name = name) with
    | some f => setNamed fields skip rest (← f.set v r)
    | none =>
      skip v
      setNamed fields skip rest r

/-- The record of named values. -/
def readNamed (fields : List (Field ν ε ρ)) (skip : ν → Except ε Unit) (missing : String → ε)
    (values : Fields ν) (r : ρ) : Except ε ρ := do
  let r ← setNamed fields skip values r
  match fields.find? fun f => f.required && (values.get? f.name).isNone with
  | some f => .error (missing f.name)
  | none => .ok r

/-- The record of values in a row and the values left over; `short` is the error at a number of
values that is too small. -/
def readRow (short : Nat → ε) : Nat → List (Field ν ε ρ) → List ν → ρ →
    Except ε (ρ × List ν)
  | _, [], values, r => .ok (r, values)
  | n, f :: fields, [], r =>
    if f.positional then .error (short n) else readRow short (n + 1) fields [] r
  | n, f :: fields, v :: values, r => do
    readRow short (n + 1) fields values (← f.set v r)

/-- What is read in two steps is read in each of them. -/
theorem bind_eq_ok {α β : Type} {x : Except ε α} {f : α → Except ε β} {b : β}
    (h : (x >>= f) = .ok b) : ∃ a, x = .ok a ∧ f a = .ok b := by
  cases x with
  | error e => cases h
  | ok a => exact ⟨a, rfl, h⟩

end GroupCalendar.Record
