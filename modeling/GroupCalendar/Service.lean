import GroupCalendar.GraphQl.Error
import GroupCalendar.Json.Basic
import GroupCalendar.Program
import GroupCalendar.Store.Basic

/-! # Services

The surroundings of the program: a store, a source of GraphQL answers, and time to wait. The
source of answers may break off, which ends the program that asked.
-/

namespace GroupCalendar

namespace Service

inductive Request where
  | store (r : Store.Request)
  | graphQl (query : String) (arguments : Json)
  | wait (millis : Nat)

abbrev Reply : Request → Type
  | .store r => Store.Reply r
  | .graphQl .. => Option (Except GraphQlError Json)
  | .wait _ => Unit

def signature : Signature := ⟨Request, Reply⟩

end Service

/-- A program that asks the services and may fail with an error. -/
abbrev Task (ε : Type) := ExceptT ε (Program Service.signature)

namespace Task

variable {ε : Type}

/-- A request to the store. -/
def store (r : Store.Request) : Program Service.signature (Store.Reply r) :=
  .ask (S := Service.signature) (.store r) .done

def query (q : Store.Query) (start : Option Item) : Task Store.StoreError Store.Page :=
  store (.query q start)

def getItem (table : String) (key : Item) : Task Store.StoreError (Option Item) :=
  store (.getItem table key)

def batchGet (table : String) (keys : List Item) : Task Store.StoreError Store.Batch :=
  store (.batchGet table keys)

def batchWrite (table : String) (writes : List Store.Write) :
    Task Store.StoreError (List Store.Write) :=
  store (.batchWrite table writes)

def wait (millis : Nat) : Task ε Unit :=
  ExceptT.lift (.ask (S := Service.signature) (.wait millis) fun _ => .done ())

def graphQl (query : String) (arguments : Json) : Task GraphQlError Json :=
  ExceptT.mk <| .ask (S := Service.signature) (.graphQl query arguments) fun
    | some answer => .done answer
    | none => .broken

/-- The end of a task whose budget of repetitions is used up. -/
def exhausted {α : Type} : Task ε α := ExceptT.mk .exhausted

/-- A result without any request. -/
def ofExcept {α : Type} (x : Except ε α) : Task ε α := ExceptT.mk (.done x)

/-- A task whose errors are told in other words. -/
def mapError {ε' α : Type} (f : ε → ε') (t : Task ε α) : Task ε' α :=
  ExceptT.adapt f t

end Task

end GroupCalendar
