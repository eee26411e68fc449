import GroupCalendar.Config.Listing
import GroupCalendar.Event.Catalogue

/-! # Settings of an import

Which groups are imported, how long that may take, into which tables, and whether the listing site
is asked directly or through a function that stands between.
-/

namespace GroupCalendar.Config

/-- The names between commas, without blanks around them and without empty ones. -/
def groupNames (raw : String) : List String :=
  (((Text.splitAt ',' raw.toList).map Text.trim).filter (!·.isEmpty)).map String.ofList

structure Import where
  groups : List String
  /-- The function through which the site is asked. -/
  proxy : Option String
  timeoutSeconds : Int
  deriving DecidableEq

namespace Import

def groupsKey : String := "MEETUP_GROUP_NAMES"

def defaultTimeoutSeconds : Int := 240

def ofSettings (s : Settings) : Except ConfigError Import := do
  s.require [groupsKey]
  let groups := groupNames (s.text groupsKey)
  if groups.isEmpty then throw (.invalidValue groupsKey "グループ名が1つもありません")
  let seconds ← s.number .u64 "IMPORT_TIMEOUT_SECS" defaultTimeoutSeconds
  return ⟨groups, s.get? "MEETUP_PROXY_FUNCTION_NAME", seconds⟩

end Import

def eventTableKeys : List String :=
  ["EVENTS_TABLE_NAME", "ARCHIVED_EVENTS_TABLE_NAME", "GROUP_ID_DATE_TIME_INDEX_NAME"]

/-- The names of the event tables. -/
def eventTables (s : Settings) : Except ConfigError Catalogue := do
  s.require eventTableKeys
  return ⟨s.text "EVENTS_TABLE_NAME", s.text "ARCHIVED_EVENTS_TABLE_NAME",
    s.text "GROUP_ID_DATE_TIME_INDEX_NAME"⟩

/-- The way to the listing site. -/
inductive Route where
  | proxy (function : String)
  | direct (access : ListingAccess) (site : ListingSite)
  deriving DecidableEq

structure Importer where
  imports : Import
  catalogue : Catalogue
  route : Route
  deriving DecidableEq

/-- The settings of an import, each part checked after the one before it. -/
def Importer.ofSettings [HostNames] (s : Settings) : Except ConfigError Importer := do
  let imports ← Import.ofSettings s
  let tables ← eventTables s
  match imports.proxy with
  | some function => return ⟨imports, tables, .proxy function⟩
  | none =>
    let access ← ListingAccess.ofSettings s
    return ⟨imports, tables, .direct access (← ListingSite.ofSettings s)⟩

end GroupCalendar.Config
