import GroupCalendar.Text.Blank

/-! # Settings of the log -/

namespace GroupCalendar.Config

/-- The text without blanks around it and with small ASCII letters. -/
def trimmedLower (s : String) : String :=
  String.ofList ((Text.trim s.toList).map Char.toLower)

inductive LogFormat where
  | json
  | text
  deriving DecidableEq, Repr

/-- The format that a setting names; all but one name the default. -/
def LogFormat.ofSetting (value : Option String) : LogFormat :=
  if value.map trimmedLower = some "text" then .text else .json

/-- What is logged: the first of two settings that is not blank, or a default. -/
def filterDirective (first second : Option String) : String :=
  match (first.filter fun s => !Text.blank s).or (second.filter fun s => !Text.blank s) with
  | some s => trimmedLower s
  | none => "info"

end GroupCalendar.Config
