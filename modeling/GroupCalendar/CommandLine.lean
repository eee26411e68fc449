/-! # The command line

The options of the import: groups, each behind `--group` or `-g` or attached to it, and a request
for help. Nothing else may stand there.
-/

namespace GroupCalendar

inductive UsageError where
  /-- An option lacks its value. -/
  | missingValue
  | unknownArgument
  /-- A value is attached to an option that has none. -/
  | excessValue
  | helpRequested
  deriving DecidableEq, Repr

namespace CommandLine

/-- What one argument says. -/
inductive Token where
  /-- An option that asks for a group, with the value attached to it. -/
  | group (value : Option (List Char))
  | help
  | helpWithValue
  | unknown
  /-- The mark behind which only plain texts stand. -/
  | separator
  | plain (text : List Char)

/-- An option of one letter; letters may be joined. -/
def shortToken : List Char → Token
  | ['g'] => .group none
  | 'g' :: '=' :: value => .group (some value)
  | 'g' :: value => .group (some value)
  | 'h' :: _ => .help
  | _ => .unknown

def groupOption : List Char := ['g', 'r', 'o', 'u', 'p']
def helpOption : List Char := ['h', 'e', 'l', 'p']

/-- An option of a whole word, with an equals sign before its value. -/
def longToken (cs : List Char) : Token :=
  let name := cs.takeWhile (· ≠ '=')
  let value := cs.dropWhile (· ≠ '=')
  if name = groupOption then
    .group (if value.isEmpty then none else some (value.drop 1))
  else if name = helpOption then
    if value.isEmpty then .help else .helpWithValue
  else .unknown

def Token.of : List Char → Token
  | ['-', '-'] => .separator
  | '-' :: '-' :: cs => longToken cs
  | ['-'] => .plain ['-']
  | '-' :: cs => shortToken cs
  | cs => .plain cs

/-- The groups named by arguments; `owed` tells that the last option still wants its value. -/
def readTokens : Bool → List Token → Except UsageError (List String)
  | owed, [] => if owed then .error .missingValue else .ok []
  | owed, .separator :: rest =>
    if !rest.isEmpty then .error .unknownArgument
    else if owed then .error .missingValue
    else .ok []
  | owed, .group value :: rest =>
    if owed then .error .missingValue
    else
      match value with
      | none => readTokens true rest
      | some cs => (readTokens false rest).map (String.ofList cs :: ·)
  | owed, .help :: _ => .error (if owed then .missingValue else .helpRequested)
  | _, .helpWithValue :: _ => .error .excessValue
  | _, .unknown :: _ => .error .unknownArgument
  | owed, .plain cs :: rest =>
    if owed then (readTokens false rest).map (String.ofList cs :: ·) else .error .unknownArgument

/-- The groups named on a command line. -/
def groups (arguments : List String) : Except UsageError (List String) :=
  readTokens false (arguments.map fun s => Token.of s.toList)

end CommandLine

end GroupCalendar
