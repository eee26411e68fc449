import GroupCalendar.Access.Token
import GroupCalendar.Crypto.PasswordHash
import GroupCalendar.Item.Decode
import GroupCalendar.Service

/-! # Credentials of clients

A client gets tokens for its secret, or for an earlier refresh token as long as it is still known.
The store holds the hash of the secret under the client's id. What is wrong with credentials is not
told.
-/

namespace GroupCalendar.Access

structure User where
  clientId : String := ""
  hashedSecret : String := ""

namespace User

def idName : String := "clientId"

def fields : List (Attribute.Field User) :=
  [.mandatory idName fun v u => return { u with clientId := ← Attribute.decodeText v },
    .mandatory "hashedClientSecret" fun v u =>
      return { u with hashedSecret := ← Attribute.decodeText v }]

/-- The user of an item. -/
def ofItem (item : Item) : Except Store.StoreError User :=
  (Attribute.decodeRecord fields {} (.record item)).mapError fun e => .read e.message

/-- The user with an id. -/
def find (table clientId : String) : Task Store.StoreError (Option User) := do
  match ← Task.getItem table (Item.key idName clientId) with
  | none => return none
  | some item => some <$> Task.ofExcept (ofItem item)

end User

inductive CredentialError where
  | invalidCredentials
  | store (error : Store.StoreError)
  deriving DecidableEq, Repr

def CredentialError.message : CredentialError → String
  | .invalidCredentials => "provided credentials are invalid"
  | .store error => s!"api user lookup failed: {error.message}"

/-- Tokens and the table of those who may get them. -/
structure Authority where
  users : String
  tokens : Tokens

namespace Authority

def find (a : Authority) (clientId : String) : Task CredentialError User := do
  match ← Task.mapError .store (User.find a.users clientId) with
  | some user => return user
  | none => throw .invalidCredentials

/-- New tokens of a client; without them the program breaks off. -/
def issue (a : Authority) (now : Instant) (clientId : String) : Task CredentialError TokenPair :=
  match a.tokens.issue? now clientId with
  | some pair => pure pair
  | none => ExceptT.mk .broken

/-- The tokens for a client's secret. -/
def authenticate (a : Authority) (now : Instant) (clientId secret : String) :
    Task CredentialError TokenPair := do
  let user ← a.find clientId
  if PasswordHash.matchesText user.hashedSecret secret then a.issue now clientId
  else throw .invalidCredentials

/-- The tokens for a refresh token. -/
def refresh (a : Authority) (now : Instant) (token : String) : Task CredentialError TokenPair := do
  let clientId ← Task.ofExcept <|
    (a.tokens.validate now .refresh token).mapError fun _ => .invalidCredentials
  let _ ← a.find clientId
  a.issue now clientId

end Authority

end GroupCalendar.Access
