import GroupCalendar.Text.Split

/-! # Media types

The type of a body: a kind and a subtype with an optional suffix, then parameters. A malformed text
names no type.
-/

namespace GroupCalendar.Http

structure MediaType where
  kind : List Char
  subtype : List Char
  suffix : Option (List Char)
  deriving DecidableEq, Repr

namespace MediaType

/-- Characters of names and unquoted values. -/
def isToken (c : Char) : Bool :=
  c.isAlphanum || ['!', '#', '$', '%', '&', '\'', '*', '+', '-', '.', '^', '_', '\x60', '|',
    '~'].contains c

/-- A quoted value and the blanks behind it, up to the next parameter or the end. -/
def skipQuoted : List Char → Option (List Char)
  | [] => none
  | '"' :: rest =>
    match rest.dropWhile (· = ' ') with
    | [] => some []
    | ';' :: rest => some rest
    | _ => none
  | c :: rest => if 0x1F < c.toNat ∧ c.toNat ≠ 0x7F then skipQuoted rest else none

/-- A value, up to the next parameter or the end. An unquoted value is empty at the end only. -/
def skipValue : List Char → Option (List Char)
  | '"' :: '"' :: _ => none
  | '"' :: rest => skipQuoted rest
  | cs =>
    match cs.dropWhile isToken with
    | [] => some []
    | ';' :: rest => if (cs.takeWhile isToken).isEmpty then none else some rest
    | _ => none

/-- Parameters, each a name and a value, are well formed. -/
def wellFormed : Nat → List Char → Bool
  | 0, _ => false
  | fuel + 1, cs =>
    let cs := cs.dropWhile (· = ' ')
    if cs.isEmpty then true
    else
      match cs.takeWhile isToken, cs.dropWhile isToken with
      | _ :: _, '=' :: value =>
        match skipValue value with
        | some rest => wellFormed fuel rest
        | none => false
      | _, _ => false

def parse? (s : String) : Option MediaType := do
  let (kind, rest) ← Text.cutAt '/' (s.toList.map Char.toLower)
  let (essence, parameters) := (Text.cutAt ';' rest).getD (rest, [])
  let malformed := kind.isEmpty || !kind.all isToken || !essence.all isToken ||
    (essence.isEmpty && !parameters.isEmpty) || !wellFormed (parameters.length + 1) parameters
  if malformed then none
  else
    match Text.cutAtLast '+' essence with
    | some (subtype@(_ :: _), suffix) => return ⟨kind, subtype, some suffix⟩
    | _ => return ⟨kind, essence, none⟩

/-- JSON, or a format based on it. -/
def isJson (t : MediaType) : Bool :=
  let json := "json".toList
  t.kind = "application".toList && (t.subtype = json || t.suffix = some json)

end MediaType

end GroupCalendar.Http
