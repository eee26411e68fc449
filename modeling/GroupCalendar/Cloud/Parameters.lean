import GroupCalendar.Cloud.Call
import GroupCalendar.Config.Settings

/-! # Parameters in the cloud

The parameters below a path, page by page. Their keys are those of settings; of several parameters
with one key the last counts.
-/

namespace GroupCalendar.Cloud.Parameters

def faults : Fault.Declared :=
  Fault.shownAsCodes
    ["InternalServerError", "InvalidFilterKey", "InvalidFilterOption", "InvalidFilterValue",
      "InvalidKeyId", "InvalidNextToken"]

structure Page where
  parameters : List (String × String)
  next : Option String

def body (path : String) (token : Option String) : Json :=
  .object <| (token.map fun t => ("NextToken", Json.string t)).toList ++
    [("Path", .string path), ("Recursive", .bool true), ("WithDecryption", .bool true)]

/-- A text that may be absent. -/
def readText (x : Json) (name : String) : Option (Option String) :=
  readPresent Json.string? (present? x name)

/-- A parameter, unless its name or its value is missing. -/
def readParameter (x : Json) : Option (Option (String × String)) := do
  match ← readText x "Name", ← readText x "Value" with
  | some name, some value => return some (parameterKey name, value)
  | _, _ => return none

def readPage (x : Json) : Option Page := do
  let parameters ← readList readParameter (present? x "Parameters")
  let token ← readText x "NextToken"
  return ⟨parameters.filterMap id, token.filter fun t => !t.isEmpty⟩

/-- The parameters from a page on, added to those found before, in at most so many pages. -/
def readFrom (path : String) : Nat → Option String → Fields String →
    ExceptT String Cloud (Fields String)
  | 0, _, _ => ExceptT.mk .exhausted
  | pages + 1, token, found => do
    let call : Call := ⟨some "AmazonSSM.GetParametersByPath", "/", (body path token).encode⟩
    let page ← callFor faults call readPage
    let found := found.overlay (Fields.ofPairs page.parameters)
    match page.next with
    | none => return found
    | some token => readFrom path pages (some token) found

/-- All parameters below a path. -/
def readAll (pages : Nat) (path : String) : ExceptT String Cloud (Fields String) :=
  readFrom path pages none []

end GroupCalendar.Cloud.Parameters
