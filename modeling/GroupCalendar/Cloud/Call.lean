import GroupCalendar.Json.Parser
import GroupCalendar.Program
import GroupCalendar.Text.Split

/-! # Calls of cloud services

A call names its operation by a target or by its path and has a body. The reply to it is read as
JSON, or as a fault with the name of an error that the operation declares.
-/

namespace GroupCalendar.Cloud

structure Call where
  target : Option String := none
  path : String := "/"
  body : List UInt8

structure Reply where
  status : Nat
  headers : List (String × String) := []
  body : List UInt8

inductive Request where
  | call (c : Call)
  | wait (millis : Nat)

abbrev Answer : Request → Type
  | .call _ => Reply
  | .wait _ => Unit

def signature : Signature := ⟨Request, Answer⟩

end Cloud

/-- A program that calls cloud services. -/
abbrev Cloud := Program Cloud.signature

namespace Cloud

def call (c : Call) : Cloud Reply :=
  .ask (S := signature) (.call c) .done

def wait (millis : Nat) : Cloud Unit :=
  .ask (S := signature) (.wait millis) .done

namespace Reply

def header? (r : Reply) (name : String) : Option String :=
  let lower (s : String) := s.toList.map Char.toLower
  (r.headers.find? fun h => lower h.1 = lower name).map (·.2)

def isSuccess (r : Reply) : Bool :=
  200 ≤ r.status && r.status < 300

/-- The body as JSON; an empty one counts as an empty object. -/
def json? (r : Reply) : Option Json :=
  if r.body.isEmpty then some (.object []) else (Json.parse r.body).toOption

end Reply

/-- What a reply says about a failure. -/
structure Fault where
  code : Option String := none
  message : Option String := none
  deriving DecidableEq, Repr

namespace Fault

/-- The name of an error without the namespace before it and the address behind it. -/
def bareCode (s : String) : String :=
  let cs := s.toList.takeWhile (· ≠ ':')
  String.ofList (((Text.cutAt '#' cs).map (·.2)).getD cs)

def member? (x : Json) (name : String) : Option String :=
  (x.get? name).bind Json.string?

/-- The fault in a reply. The header with the name of the error stands before the body. -/
def ofReply (r : Reply) : Fault :=
  match r.json? with
  | none => {}
  | some x =>
    let code := r.header? "x-amzn-errortype" <|> member? x "code" <|> member? x "__type"
    let message := member? x "message" <|> member? x "Message" <|> member? x "errorMessage"
    ⟨code.map bareCode, message⟩

/-- The codes of the errors that an operation declares, and how they are shown. -/
abbrev Declared := List (String × String)

/-- Errors that are shown as their codes. -/
def shownAsCodes (codes : List String) : Declared :=
  codes.map fun code => (code, code)

/-- The text of a fault in an operation that declares some errors. -/
def text (declared : Declared) (f : Fault) : String :=
  match f.code with
  | none => "unhandled error"
  | some code =>
    match declared.lookup code, f.message with
    | some name, some message => s!"{name}: {message}"
    | some name, none => name
    | none, _ => s!"unhandled error ({code})"

end Fault

/-- The value in the reply to a call, or the text of its fault. -/
def callFor {α : Type} (declared : Fault.Declared) (c : Call) (read : Json → Option α) :
    ExceptT String Cloud α :=
  ExceptT.mk do
    let r ← call c
    if r.isSuccess then
      return (r.json?.bind read).elim (.error "unhandled error") .ok
    else return .error ((Fault.ofReply r).text declared)

/-- The member of an object, where null counts as its absence. -/
def present? (x : Json) (name : String) : Option Json :=
  match x.get? name with
  | some .null => none
  | y => y

/-- The elements of a list that may be absent, each read. -/
def readList {α : Type} (read : Json → Option α) : Option Json → Option (List α)
  | none => some []
  | some (.array xs) => xs.mapM read
  | some _ => none

/-- A value that may be absent. -/
def readPresent {α : Type} (read : Json → Option α) : Option Json → Option (Option α)
  | none => some none
  | some x => (read x).map some

end Cloud

end GroupCalendar
