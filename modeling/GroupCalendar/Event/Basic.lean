import GroupCalendar.Time.Dates

/-! # Events

An event of a group. Its id is unique across all groups; a date may be missing.
-/

namespace GroupCalendar

structure Venue where
  name : String := ""
  address : String := ""
  city : String := ""
  state : String := ""
  postalCode : String := ""
  deriving DecidableEq

structure Host where
  name : String := ""
  deriving DecidableEq

structure Image where
  baseUrl : String := ""
  preview : String := ""
  deriving DecidableEq

structure Event where
  id : String := ""
  groupId : String := ""
  groupName : String := ""
  title : String := ""
  eventUrl : String := ""
  description : String := ""
  dateTime : Option Instant := none
  duration : String := ""
  venue : Option Venue := none
  host : Option Host := none
  images : List Image := []
  deriving DecidableEq

end GroupCalendar
