import GroupCalendar.Fields
import GroupCalendar.Number.Numeral
import GroupCalendar.Text.Blank
import GroupCalendar.Text.Split
import GroupCalendar.Url.Parser

/-! # Settings

Texts under keys, of which some stand before those of the environment. A blank text counts as
absent. Absent keys that are required are reported together, and before any faulty value.
-/

namespace GroupCalendar

inductive ConfigError where
  | missingKeys (keys : List String)
  | invalidValue (key message : String)
  | parameters (message : String)
  deriving DecidableEq, Repr

def ConfigError.message : ConfigError → String
  | .missingKeys keys => "必須の設定値が設定されていません: " ++ ", ".intercalate keys
  | .invalidValue key message => s!"設定値が不正です: {key}: {message}"
  | .parameters message => s!"AWS SSM APIエラー: {message}"

structure Settings where
  /-- These stand before the environment, also when they are blank. -/
  values : Fields String
  environment : Fields String := []

namespace Settings

def get? (s : Settings) (key : String) : Option String :=
  ((s.values.get? key).or (s.environment.get? key)).filter fun v => !Text.blank v

def getD (s : Settings) (key fallback : String) : String :=
  (s.get? key).getD fallback

/-- A required text, empty in its absence. -/
def text (s : Settings) (key : String) : String :=
  s.getD key ""

/-- The keys without a text, in their order. -/
def missing (s : Settings) (keys : List String) : List String :=
  keys.filter fun key => (s.get? key).isNone

def ensurePresent (missing : List String) : Except ConfigError Unit :=
  if missing.isEmpty then .ok () else .error (.missingKeys missing)

/-- All of some keys have a text. -/
def require (s : Settings) (keys : List String) : Except ConfigError Unit :=
  ensurePresent (s.missing keys)

def set (s : Settings) (key value : String) : Settings :=
  { s with values := s.values.insert key value }

/-- The settings with the answer of a parameter store before them. -/
def withParameters (s : Settings) (answer : Except String (Fields String)) :
    Except ConfigError Settings :=
  match answer with
  | .ok parameters => .ok { s with values := s.values.overlay parameters }
  | .error message => .error (.parameters message)

/-- The value of a text, or a fault that names the key. -/
def checked {ε α : Type} (key : String) (message : ε → String) (x : Except ε α) :
    Except ConfigError α :=
  x.mapError fun e => .invalidValue key (message e)

/-- A number of a range, with blanks around it, or a default. -/
def number (s : Settings) (range : IntegerRange) (key : String) (fallback : Int) :
    Except ConfigError Int :=
  match s.get? key with
  | none => .ok fallback
  | some raw => checked key (·.message) (range.read (Text.trim raw.toList))

/-- An address or a default one. -/
def url [HostNames] (s : Settings) (key fallback : String) : Except ConfigError Url :=
  checked key (·.message) (Url.parse (s.getD key fallback))

end Settings

/-- The key of a parameter: its last part, in capitals and with underscores. -/
def parameterKey (name : String) : String :=
  let last := ((Text.splitAt '/' name.toList).getLast?).getD []
  String.ofList (last.map fun c => if c = '-' then '_' else c.toUpper)

end GroupCalendar
