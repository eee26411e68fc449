import GroupCalendar.Url.Basic

/-! # Parsing addresses

The parts of an absolute address from its text, with the forms that a library knows of the names of
hosts. Blanks around the text are passed over, as are line
breaks and tabs anywhere in it; a backslash counts as a slash in the well-known schemes.
-/

namespace GroupCalendar.Url

/-- Control characters and the space. -/
def isOuterBlank (c : Char) : Bool :=
  c.toNat ≤ 0x20

/-- The text without the characters that are passed over. -/
def clean (cs : List Char) : List Char :=
  let inner := ((cs.dropWhile isOuterBlank).reverse.dropWhile isOuterBlank).reverse
  inner.filter fun c => !(['\t', '\n', '\r'].contains c)

/-- The scheme in lower case and what stands behind its colon. -/
def cutScheme? (cs : List Char) : Option (List Char × List Char) := do
  let (scheme, rest) ← Text.cutAt ':' cs
  let first ← scheme.head?
  if first.isAlpha ∧ scheme.all fun c => c.isAlphanum || ['+', '-', '.'].contains c then
    return (scheme.map Char.toLower, rest)
  else none

/-- Characters that end an authority. -/
def endsAuthority (special : Bool) (c : Char) : Bool :=
  c = '/' || c = '?' || c = '#' || (special && c = '\\')

/-- The user's name and password. An empty password is left out with its colon. -/
def writeUserInfo (cs : List Char) : List Char :=
  let write := Percent.encode Percent.inUserInfo
  match Text.cutAt ':' cs with
  | none => write cs
  | some (name, []) => write name
  | some (name, password) => write name ++ ':' :: write password

/-- The host and what stands behind it, up to the end of the authority. -/
def cutHost (cs : List Char) : List Char × List Char :=
  go false cs
where
  go (bracketed : Bool) : List Char → List Char × List Char
    | [] => ([], [])
    | c :: rest =>
      if c = ':' ∧ ¬bracketed then ([], c :: rest)
      else
        let (host, rest) := go (c = '[' || (bracketed && c ≠ ']')) rest
        (c :: host, rest)

/-- The port, unless it is the default one. -/
def readPort (scheme : List Char) (cs : List Char) : Except UrlError (Option Nat) :=
  if cs.isEmpty then .ok none
  else
    match readBase? 10 cs with
    | none => .error .invalidPort
    | some n =>
      if 65535 < n then .error .invalidPort
      else .ok (if defaultPort? scheme = some n then none else some n)

variable [HostNames]

structure Authority where
  userInfo : List Char
  host : Host
  port : Option Nat

/-- The parts of an authority. -/
def readAuthority (scheme : List Char) (cs : List Char) : Except UrlError Authority := do
  let special := isSpecial scheme
  let (userInfo, address, named) := match Text.cutAtLast '@' cs with
    | none => ([], cs, false)
    | some (before, after) => (writeUserInfo before, after, true)
  let (host, port) := cutHost address
  if host.isEmpty ∧ (special ∨ !port.isEmpty ∨ (named ∧ !userInfo.isEmpty)) then throw .emptyHost
  let host ← if special then Host.parse host else Host.parseOther host
  return ⟨userInfo, host, ← readPort scheme (port.drop 1)⟩

/-- The segments of a path's text. -/
def splitSegments (special : Bool) (cs : List Char) : List (List Char) :=
  Text.splitAt '/' (if special then cs.map fun c => if c = '\\' then '/' else c else cs)

/-- The path behind an authority. -/
def readPath (special : Bool) (cs : List Char) : UrlPath :=
  match splitSegments special (Percent.encode Percent.inPath cs) with
  | [[]] => if special then .segments [[]] else .segments []
  | [] :: parts => .ofSegments parts
  | parts => .ofSegments parts

/-- The host of a file, if it is not this one. -/
def readFileHost (cs : List Char) : Except UrlError Host := do
  if cs.isEmpty then return .name []
  match ← Host.parse cs with
  | .name label => return .name (if label = "localhost".toList then [] else label)
  | host => return host

/-- A letter and a colon name a drive; the colon may be a bar. -/
def isDrive : List Char → Bool
  | [letter, c] => letter.isAlpha && (c = ':' || c = '|')
  | _ => false

/-- The segments of a file's path: at least one, and none empty in front of another at its start. -/
def fileSegments (parts : List (List Char)) : List (List Char) :=
  match parts.dropWhile List.isEmpty with
  | [] => [[]]
  | first :: rest =>
    if isDrive first then [first.headD 'c', ':'] :: (UrlPath.walk [] rest).reverse
    else
      match (UrlPath.walk [] (first :: rest)).reverse.dropWhile List.isEmpty with
      | [] => [[]]
      | parts => parts

/-- The path of a file, which never leaves the drive it begins with. -/
def filePath (cs : List Char) : UrlPath :=
  .segments (fileSegments (splitSegments true (Percent.encode Percent.inPath cs)))

/-- Text before the first of some characters, and the text from there on. -/
def cutWhere (p : Char → Bool) (cs : List Char) : List Char × List Char :=
  (cs.takeWhile fun c => !p c, cs.dropWhile fun c => !p c)

/-- The address of a file. A path that begins with a drive has no host. -/
def readFile (cs : List Char) : Except UrlError Url := do
  let isSlash (c : Char) := c = '/' || c = '\\'
  let onDrive (path : UrlPath) : Bool :=
    match path with
    | .segments (drive :: _) => isDrive drive
    | _ => false
  let (host, path) ← match cs with
    | c :: d :: rest =>
      if isSlash c && isSlash d then
        let (host, path) := cutWhere isSlash rest
        if isDrive host then pure (.name [], filePath rest)
        else pure (← readFileHost host, filePath path)
      else pure (.name [], filePath cs)
    | _ => pure (.name [], filePath cs)
  return { scheme := "file".toList, host := some (if onDrive path then .name [] else host), path }

/-- The address of a well-known scheme; any number of slashes stands before its authority. -/
def readSpecial (scheme : List Char) (cs : List Char) : Except UrlError Url := do
  let (authority, path) := cutWhere (endsAuthority true) (cs.dropWhile (endsAuthority true))
  let a ← readAuthority scheme authority
  return ⟨scheme, a.userInfo, a.host, a.port, readPath true path, none, none⟩

/-- The address of any other scheme. -/
def readOther (scheme : List Char) (cs : List Char) : Except UrlError Url := do
  match cs with
  | '/' :: '/' :: rest =>
    let (authority, path) := cutWhere (endsAuthority false) rest
    let a ← readAuthority scheme authority
    return ⟨scheme, a.userInfo, a.host, a.port, readPath false path, none, none⟩
  | '/' :: _ => return { scheme, path := readPath false cs }
  | _ => return { scheme, path := .plain (Percent.encode Percent.isControl cs) }

/-- The address that a text describes. -/
def parse (s : String) : Except UrlError Url := do
  let cs := clean s.toList
  let some (scheme, rest) := cutScheme? cs | throw .noBase
  let special := isSpecial scheme
  let (rest, fragment) := cutWhere (· = '#') rest
  let (rest, query) := cutWhere (· = '?') rest
  let url ← if isFile scheme then readFile rest
    else if special then readSpecial scheme rest
    else readOther scheme rest
  let written (encoded : Char → Bool) (part : List Char) : Option (List Char) :=
    if part.isEmpty then none else some (Percent.encode encoded (part.drop 1))
  return { url with
    query := written (if special then Percent.inSpecialQuery else Percent.inQuery) query
    fragment := written Percent.inFragment fragment }

end GroupCalendar.Url
