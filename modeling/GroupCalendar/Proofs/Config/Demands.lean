import GroupCalendar.Config.Api
import GroupCalendar.Config.Import
import GroupCalendar.Proofs.Url.Names

/-! # What is demanded of settings

Some texts must be there, and some of the texts are checked in a fixed order. All that are absent or
blank are reported together, in the order in which they are declared, before any text is checked;
then the first faulty text is. Nothing else in the settings has an effect.
-/

namespace GroupCalendar

/-- Nothing but blank characters stands under the key, if anything does. -/
def Settings.lacks (s : Settings) (key : String) : Bool :=
  ((s.values.get? key).or (s.environment.get? key)).all fun text => text.toList.all Text.isBlank

namespace Config

/-- A check of the text under a key: the message of its fault, if it has one. -/
structure Check where
  key : String
  fault? : String → Option String

namespace Check

/-- The text can be read. -/
def reading {ε α : Type} (key : String) (message : ε → String) (read : String → Except ε α) :
    Check where
  key := key
  fault? text :=
    match read text with
    | .ok _ => none
    | .error e => some (message e)

def address [HostNames] (key : String) : Check :=
  reading key (·.message) Url.parse

def number (range : IntegerRange) (key : String) : Check :=
  reading key (·.message) fun text => range.read (Text.trim text.toList)

def base64 (key : String) : Check :=
  reading key (·.message) fun text =>
    Base64.standard.decode (Text.Utf8.encodeChars (Text.trim text.toList))

/-- The text names a group. -/
def groups (key : String) : Check where
  key := key
  fault? text := if groupNames text = [] then some "グループ名が1つもありません" else none

end Check

structure Demands where
  /-- The keys of the texts that must be there. -/
  required : List String
  /-- The checks in their order. -/
  checks : List Check := []
  /-- The keys of the texts that may be there and are taken as they are. -/
  optional : List String := []

namespace Demands

/-- The declared keys. -/
def keys (d : Demands) : List String :=
  d.required ++ d.checks.map (·.key) ++ d.optional

def missing (d : Demands) (s : Settings) : List String :=
  d.required.filter s.lacks

end Demands

section Faults

variable {α β ε : Type} {s : Settings} {d : Demands} {keys : List String} {key fallback : String}
  {x : Except ConfigError α} {e : ConfigError}

end Faults

section Agreement

variable {s t : Settings} {keys required : List String} {key : String}
  (h : ∀ key ∈ keys, s.get? key = t.get? key)
include h

end Agreement

section Readers

end Readers

section Sample

attribute [local instance] HostNames.plain

end Sample

end Config

end GroupCalendar
