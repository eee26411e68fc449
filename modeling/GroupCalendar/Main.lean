import GroupCalendar.Cloud.Parameters
import GroupCalendar.Cloud.Services
import GroupCalendar.CommandLine
import GroupCalendar.Config.Import
import GroupCalendar.Import.Schedule
import GroupCalendar.Listing.Client

/-! # The import program

Imports the groups named on the command line, or else those of the settings, one after the other.
What the program asks of its surroundings it writes to standard output as one line of JSON, and it
takes the answer from the next line of standard input. The last line written tells which groups
have succeeded and which have failed.
-/

namespace GroupCalendar.Terminal

/-- The addresses of the settings have hosts with plain names. -/
local instance hostNames : HostNames := .plain

/-- Pages that anything is read in at most. -/
def budget : Nat := 1000000

/-- The keys of all settings. -/
def keys : List String :=
  [Config.Import.groupsKey, "MEETUP_PROXY_FUNCTION_NAME", "IMPORT_TIMEOUT_SECS",
    "DYNAMODB_ENDPOINT", "SSM_PATH", Config.ListingAccess.authUrlKey,
    Config.ListingSite.apiUrlKey] ++ Config.eventTableKeys ++ Config.ListingAccess.required

def environment : IO Settings := do
  let pairs ← keys.filterMapM fun key => do return (← IO.getEnv key).map (key, ·)
  return { values := [], environment := Fields.ofPairs pairs }

section Exchange

/-- The answer to a question. -/
def exchange (question : Json) : IO Json := do
  let output ← IO.getStdout
  output.putStrLn question.print
  output.flush
  match Json.parse (Text.Utf8.encode (← (← IO.getStdin).getLine)) with
  | .ok x => return x
  | .error e => throw (IO.userError e.message)

def text (x : Json) (name : String) : String :=
  ((x.get? name).bind Json.string?).getD ""

def status (x : Json) : Nat :=
  match x.get? "status" with
  | some (.integer n) => n.toNat
  | _ => 0

def headers (x : Json) : List (String × String) :=
  match x.get? "headers" with
  | some (.object members) => members.filterMap fun (name, v) => v.string?.map (name, ·)
  | _ => []

def body (x : Json) : List UInt8 :=
  Text.Utf8.encode (text x "body")

def shown (octets : List UInt8) : Json :=
  .string (Text.Utf8.decodeLossy octets)

def askCloud : (r : Cloud.Request) → IO (Cloud.Answer r)
  | .call c => do
    let x ← exchange <| .ofPairs
      [("target", .ofOption c.target), ("path", .string c.path), ("body", shown c.body)]
    return ⟨status x, headers x, body x⟩
  | .wait millis => IO.sleep (.ofNat millis)

/-- The time, as the surroundings tell it. -/
def askNow : IO Instant := do
  match readStoredDate (text (← exchange (.ofPairs [("ask", .string "now")])) "now") with
  | .ok now => return now
  | .error e => throw (IO.userError e.message)

def askSite : (r : Site.Request) → IO (Site.Reply r)
  | .now => askNow
  | .post p => do
    let x ← exchange <| .ofPairs
      [("url", .string p.url.toText), ("contentType", .string p.contentType),
        ("authorization", .ofOption p.authorization), ("body", shown p.body)]
    return if status x = 0 then none else some ⟨status x, body x⟩

end Exchange

/-- The value at the end of a run that neither breaks off nor runs on. -/
def value {α : Type} : Outcome α → IO α
  | .done a => return a
  | .broken | .exhausted => throw (IO.userError "the program was broken off")

/-- The services by way of the cloud and, unless a proxy is asked, of the listing site. -/
def services (endpoint : Option String) (route : Config.Route) :
    (r : Service.Request) → StateT (Option Listing.AccessToken) IO (Service.Reply r)
  | .graphQl query arguments => fun kept => do
    match route with
    | .proxy function =>
      let answer := (Cloud.Functions.query function ⟨query, arguments⟩).run
      return (some (← value (← answer.runIn askCloud)), kept)
    | .direct access site =>
      let client : Listing.Client := ⟨access, site⟩
      let (answer, kept) ← value (← ((client.query ⟨query, arguments⟩).run kept).runIn askSite)
      return (some answer, kept)
  | .wait millis => askCloud (.wait millis)
  | .store r => fun kept => do
    return (← value (← (Cloud.Tables.answer endpoint r).runIn askCloud), kept)

/-- The import of some groups in turn, as long as the deadline, in milliseconds, has not passed. -/
def importAll (i : Config.Importer) (endpoint : Option String) (now : Instant) (deadline : Nat) :
    StateT (Option Listing.AccessToken) IO (List Import.Worker) :=
  i.imports.groups.mapM fun group => do
    if deadline ≤ (← IO.monoMsNow) then
      throw (IO.userError (Import.deadlineMessage (i.imports.timeoutSeconds.toNat * 1000)))
    let work := (Import.importGroup i.catalogue budget now (Import.cutoff now) group).run
    return ⟨group, .finished (← work.runIn (services endpoint i.route))⟩

/-- The settings with the parameters below a path, if one is set. -/
def withParameters (s : Settings) : IO (Except ConfigError Settings) := do
  match s.get? "SSM_PATH" with
  | none => return .ok s
  | some path =>
    return s.withParameters (← value (← (Cloud.Parameters.readAll budget path).run.runIn askCloud))

def usage (e : UsageError) : String :=
  match e with
  | .missingValue => "a group is missing behind --group"
  | .unknownArgument => "unknown argument"
  | .excessValue => "--help has no value"
  | .helpRequested => "usage: [--group <group>]..."

/-- The import that settings ask for, with the groups of the command line before theirs. -/
def configured (named : List String) : IO (Except ConfigError (Settings × Config.Importer)) := do
  match ← withParameters (← environment) with
  | .error e => return .error e
  | .ok s =>
    let s := if named.isEmpty then s else s.set Config.Import.groupsKey (",".intercalate named)
    return (Config.Importer.ofSettings s).map fun i => (s, i)

def run (named : List String) : IO UInt32 := do
  match ← configured named with
  | .error e =>
    IO.eprintln e.message
    return 1
  | .ok (s, i) =>
    let deadline := (← IO.monoMsNow) + i.imports.timeoutSeconds.toNat * 1000
    let now ← askNow
    let (workers, _) ← (importAll i (s.get? "DYNAMODB_ENDPOINT") now deadline).run none
    let summary := Import.Summary.ofWorkers workers (List.range workers.length)
    IO.println <| Json.print <| .ofPairs
      [("succeeded", .array (summary.succeeded.map fun g => .string g.group)),
        ("failed", .array (summary.failed.map .string))]
    return 0

end GroupCalendar.Terminal

open GroupCalendar in
def main (arguments : List String) : IO UInt32 := do
  match CommandLine.groups arguments with
  | .ok named => Terminal.run named
  | .error .helpRequested =>
    IO.println (Terminal.usage .helpRequested)
    return 0
  | .error e =>
    IO.eprintln (Terminal.usage e)
    return 2
