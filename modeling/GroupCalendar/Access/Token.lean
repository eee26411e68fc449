import GroupCalendar.Crypto.Hmac
import GroupCalendar.Crypto.SignedToken
import GroupCalendar.Json.Stream
import GroupCalendar.Text.Split
import GroupCalendar.Time.Instant

/-! # Tokens of the API

A client gets two tokens, one for access and one for refreshing, each signed with a shared secret.
A token is valid for one use, for one issuer and until the second of its expiry.
-/

namespace GroupCalendar.Access

/-- Minutes that an access token is valid. -/
def accessMinutes : Int := 15

/-- Days that a refresh token is valid. -/
def refreshDays : Int := 30

inductive TokenUse where
  | access
  | refresh
  deriving DecidableEq, Repr

def TokenUse.text : TokenUse → String
  | .access => "access"
  | .refresh => "refresh"

def TokenUse.ofText? (s : String) : Option TokenUse :=
  if s = "access" then some .access else if s = "refresh" then some .refresh else none

inductive TokenError where
  | invalid
  | expired
  deriving DecidableEq, Repr

def TokenError.message : TokenError → String
  | .invalid => "invalid token"
  | .expired => "token expired"

/-- Secret and issuer of the tokens. -/
structure Tokens where
  secret : List UInt8
  issuer : String

/-- What a token says; times are seconds since 1970. -/
structure Claims where
  iss : String := ""
  sub : String := ""
  iat : Int := 0
  exp : Int := 0
  use : Option TokenUse := none

structure TokenPair where
  access : String
  accessExpires : Instant
  refresh : String
  refreshExpires : Instant

namespace Claims

def members (c : Claims) : List (String × Json) :=
  [("iss", .string c.iss), ("sub", .string c.sub), ("iat", .integer c.iat), ("exp", .integer c.exp),
    ("token_use", .string ((c.use.map (·.text)).getD ""))]

end Claims

namespace Tokens

def header : List (String × Json) :=
  [("typ", .string "JWT"), ("alg", .string "HS256")]

/-- The authentication code of a text. -/
def signature (t : Tokens) (message : List Char) : List UInt8 :=
  Hmac.code t.secret (SignedToken.octets message)

def sign (t : Tokens) (c : Claims) : String :=
  let message := SignedToken.message header c.members
  SignedToken.join message (t.signature message)

/-- The tokens of a client, unless they would expire after the last instant. -/
def issue? (t : Tokens) (now : Instant) (client : String) : Option TokenPair := do
  let accessExpires ← now.addSeconds? (accessMinutes * 60)
  let refreshExpires ← now.addSeconds? (refreshDays * 86400)
  let claims (use : TokenUse) (expires : Instant) : Claims :=
    ⟨t.issuer, client, now.seconds, expires.seconds, some use⟩
  return ⟨t.sign (claims .access accessExpires), accessExpires,
    t.sign (claims .refresh refreshExpires), refreshExpires⟩

end Tokens

section Reading

open Json

/-- One of some names, alone or as the only member of an object, with null. -/
def readName {α : Type} (ofName? : String → Option α) : Reader α := fun c => do
  let (b, c) ← valueStart c
  let name (s : String) (c : Cursor) : Reading (α × Cursor) :=
    match ofName? s with
    | some a => .ok (a, c)
    | none => .error ⟨.mismatch (.invalid s!"unknown variant `{s}`"), c.offset⟩
  if b = 0x22 then do
    let (s, c) ← readString c
    name s c
  else if b = 0x7B then do
    let (s, c) ← readString (c.skip 1)
    let (_, c) ← ofScan (scanColon c)
    let (a, c) ← name s c
    let (b, c) ← valueStart c
    if b ≠ 0x6E then wrongType "unit" c
    let (_, c) ← ofScan (scanIdent [0x75, 0x6C, 0x6C] (c.skip 1))
    let (b, c) ← valueStart c
    if b = 0x7D then return (a, c.skip 1) else ofScan (c.here .expectedValue)
  else wrongType "a name" c

/-- A list of texts. -/
def readStrings : Reader (List String) := fun c => do
  let (b, c) ← valueStart c
  if b ≠ 0x5B then wrongType "a sequence" c
  else
    let (x, c) ← ofScan (parseValue (2 * c.rest.length + 2) depthLimit c)
    match (decodeList decodeString x) with
    | .ok texts => return (texts, c)
    | .error e => .error ⟨.mismatch e, c.offset⟩

/-- Any value, skipped. -/
def readAny : Reader Unit := fun c => do
  let c ← ofScan (skipAny c)
  return ((), c)

section Keys

/-- The members of an object from the cursor on: their names, as often as they stand there, and
where their values start. -/
def scanMembers : Nat → Bool → Cursor → Scan (List (String × Cursor) × Cursor)
  | 0, _, c => c.here .eofInObject
  | fuel + 1, first, c => do
    match ← scanMemberStart first c with
    | .ended c => return ([], c)
    | .item c =>
      let (name, c) ← scanString c
      let (_, value) ← scanColon c
      let (_, c) ← parseValue (2 * value.rest.length + 2) (depthLimit - 2) value
      let (others, c) ← scanMembers fuel false c
      return ((name, value) :: others, c)

/-- A member of a key and how its value is read. -/
structure KeyMember where
  name : String
  read : Reader Unit

namespace KeyMember

def reading {α : Type} (name : String) (read : Reader α) : KeyMember where
  name := name
  read c := do
    let (_, c) ← read c
    return ((), c)

def text (name : String) : KeyMember := reading name readString

def texts (name : String) : KeyMember := reading name readStrings

/-- One of some names. -/
def oneOf (name : String) (accepts : String → Bool) : KeyMember :=
  reading name (readName (Option.guard accepts))

/-- The member stands among others once, and its value can be read. -/
def isIn (m : KeyMember) (members : List (String × Cursor)) : Bool :=
  match members.filter (·.1 = m.name) with
  | [(_, value)] => (m.read value).isOk
  | _ => false

/-- The member is missing, or it stands among others once and is null or can be read. -/
def mayBeIn (m : KeyMember) (members : List (String × Cursor)) : Bool :=
  match members.filter (·.1 = m.name) with
  | [] => true
  | [(_, value)] => (readOption m.read value).isOk
  | _ => false

end KeyMember

/-- What any key may have; of the algorithm some name is enough. -/
def commonMembers : List KeyMember :=
  [.text "use", .texts "key_ops", .oneOf "alg" fun _ => true, .text "kid", .text "x5u",
    .texts "x5c", .text "x5t", .text "x5t#S256"]

def curve : KeyMember :=
  .oneOf "crv" ["P-256", "P-384", "P-521", "Ed25519"].contains

/-- What a key of each kind must have. -/
def keyKinds : List (List KeyMember) :=
  [[.oneOf "kty" (· = "EC"), curve, .text "x", .text "y"],
    [.oneOf "kty" (· = "RSA"), .text "n", .text "e"],
    [.oneOf "kty" (· = "oct"), .text "k"],
    [.oneOf "kty" (· = "OKP"), curve, .text "x"]]

/-- A key of some kind. -/
def readKey : Reader Unit := fun c => do
  let (b, c) ← valueStart c
  if b ≠ 0x7B then wrongType "struct Jwk" c
  else
    let (members, c) ← ofScan (scanMembers (c.rest.length + 1) true (c.skip 1))
    if commonMembers.all (·.mayBeIn members) && keyKinds.any (·.all (·.isIn members)) then
      return ((), c)
    else .error ⟨.mismatch (.invalid "no key of any kind"), c.offset⟩

end Keys

/-- Names of the algorithms by which tokens may be signed. -/
def algorithms : List String :=
  ["HS256", "HS384", "HS512", "ES256", "ES384", "RS256", "RS384", "RS512", "PS256", "PS384",
    "PS512", "EdDSA"]

def readAlgorithm : Reader String :=
  readName fun s => if algorithms.contains s then some s else none

def optionalText (name : String) : StreamField String :=
  .optional name (readOption readString) fun _ r => r

/-- The header's algorithm; its other known members have their types. -/
def headerFields : List (StreamField String) :=
  [optionalText "typ",
    .mandatory "alg" readAlgorithm fun s _ => s,
    optionalText "cty", optionalText "jku",
    .optional "jwk" (readOption readKey) fun _ r => r,
    optionalText "kid", optionalText "x5u",
    .optional "x5c" (readOption readStrings) fun _ r => r,
    optionalText "x5t", optionalText "x5t#S256"]

def claimFields : List (StreamField Claims) :=
  [.mandatory "iss" readString fun s c => { c with iss := s },
    .mandatory "sub" readString fun s c => { c with sub := s },
    .mandatory "iat" readInteger fun n c => { c with iat := n },
    .mandatory "exp" readInteger fun n c => { c with exp := n },
    .mandatory "token_use" (readName TokenUse.ofText?) fun u c => { c with use := some u }]

/-- A time before which a token is not valid counts for nothing, but a list or object there must
be empty. -/
def readIgnoredTime : Reader Unit := fun c => do
  let (b, c) ← valueStart c
  if b = 0x5B ∨ b = 0x7B then
    let (b', c) ← valueStart (c.skip 1)
    if b' = (if b = 0x5B then 0x5D else 0x7D) then return ((), c.skip 1)
    else ofScan (c.here .trailingCharacters)
  else readAny c

/-- An audience: some text, or a list of texts. -/
def readAudience : Reader Bool := fun c => do
  let (x, c) ← ofScan (parseValue (2 * c.rest.length + 2) depthLimit c)
  return (x.string?.isSome || (decodeList decodeString x).toOption.isSome, c)

/-- Whether the claims name an audience. -/
def audienceFields : List (StreamField Bool) :=
  [.optional "nbf" readIgnoredTime fun _ r => r,
    .optional "aud" readAudience fun named _ => named]

end Reading

namespace Tokens

def readPart {ρ : Type} (name : String) (fields : List (Json.StreamField ρ)) (initial : ρ)
    (part : List Char) : Option ρ := do
  let bytes ← (Base64.urlSafeUnpadded.decode (Text.Utf8.encodeChars part)).toOption
  (Json.readWhole fields name initial bytes).toOption

/-- The claims of a token with the right signature. -/
def verified? (t : Tokens) (token : String) : Option (List Char × Claims) := do
  let (message, sent) ← Text.cutAtLast '.' token.toList
  let (header, claims) ← Text.cutAtLast '.' message
  let algorithm ← readPart "Header" headerFields "" header
  if algorithm = "HS256" ∧ sent = SignedToken.encodeSignature (t.signature message) then
    return (claims, ← readPart "TokenClaims" claimFields {} claims)
  else none

/-- The client of a token that is valid for a use at an instant. -/
def validate (t : Tokens) (now : Instant) (use : TokenUse) (token : String) :
    Except TokenError String :=
  match t.verified? token with
  | none => .error .invalid
  | some (part, c) =>
    if readPart "ClaimsForValidation" audienceFields false part ≠ some false then .error .invalid
    else if c.exp < 0 ∨ c.iss ≠ t.issuer then .error .invalid
    else if c.use ≠ some use ∨ c.sub.isEmpty then .error .invalid
    else if c.exp ≤ now.seconds then .error .expired
    else .ok c.sub

end Tokens

end GroupCalendar.Access
