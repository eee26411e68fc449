import GroupCalendar.Listing.AccessToken

/-! # Sharing an access token

Any number of callers share one access token. Whoever holds it looks at it, gets a new one if need
be, and puts it back; the others wait. Callers take steps in any order, and the clock may move
between them. A message to the site is sent in one step and answered in a later one.
-/

namespace GroupCalendar.Listing

/-- What the holder has to do. -/
abbrev Holding := Site (Except TokenFetchError AccessToken)

namespace Caller

inductive Phase where
  | waiting
  | holding (work : Holding)
  /-- A message is on its way. -/
  | asking (p : Http.Post) (next : Option Http.Answer → Holding)
  | finished (result : Outcome (Except TokenFetchError String))

/-- The caller has the token to itself. -/
def Phase.holds : Phase → Bool
  | .holding _ | .asking .. => true
  | .waiting | .finished _ => false

end Caller

/-- The callers, the token they share, the time, and the state of the site. -/
structure Sharing (σ : Type) where
  callers : List Caller.Phase
  kept : Option AccessToken
  now : Instant
  site : σ

namespace Sharing

variable [HostNames] {σ : Type}

/-- Callers that all wait. -/
def start (count : Nat) (kept : Option AccessToken) (now : Instant) (site : σ) : Sharing σ :=
  ⟨List.replicate count .waiting, kept, now, site⟩

def setPhase (s : Sharing σ) (i : Nat) (phase : Caller.Phase) : Sharing σ :=
  { s with callers := s.callers.set i phase }

/-- Somebody holds the token. -/
def isHeld (s : Sharing σ) : Bool :=
  s.callers.any (·.holds)

/-- Caller `i` puts a token back and ends with it. -/
def putBack (s : Sharing σ) (i : Nat) (token : AccessToken) : Sharing σ :=
  { s.setPhase i (.finished (.done (.ok token.text))) with kept := some token }

/-- One step of caller `i`; nothing happens when it cannot take one. -/
def step (a : Config.ListingAccess) (answer : Http.Post → σ → Option Http.Answer × σ) (i : Nat)
    (s : Sharing σ) : Sharing σ :=
  match s.callers[i]? with
  | some .waiting => if s.isHeld then s else s.setPhase i (.holding (obtainToken a s.kept).run)
  | some (.holding (.done (.ok token))) => s.putBack i token
  | some (.holding (.done (.error e))) => s.setPhase i (.finished (.done (.error e)))
  | some (.holding .broken) => s.setPhase i (.finished .broken)
  | some (.holding .exhausted) => s.setPhase i (.finished .exhausted)
  | some (.holding (.ask .now next)) => s.setPhase i (.holding (next s.now))
  | some (.holding (.ask (.post p) next)) => s.setPhase i (.asking p next)
  | some (.asking p next) =>
    let (reply, site) := answer p s.site
    { s.setPhase i (.holding (next reply)) with site := site }
  | some (.finished _) | none => s

/-- What may happen next. -/
inductive Move where
  | caller (i : Nat)
  | clock (now : Instant)

def move (a : Config.ListingAccess) (answer : Http.Post → σ → Option Http.Answer × σ)
    (s : Sharing σ) : Move → Sharing σ
  | .caller i => s.step a answer i
  | .clock now => { s with now := now }

/-- The moves of a schedule. -/
def moves (a : Config.ListingAccess) (answer : Http.Post → σ → Option Http.Answer × σ)
    (schedule : List Move) (s : Sharing σ) : Sharing σ :=
  schedule.foldl (move a answer) s

/-- Steps that any caller needs at most. -/
def stepsPerCaller : Nat := 7

/-- The schedule in which every caller ends before the next one begins. -/
def inTurn (count : Nat) : List Move :=
  (List.range count).flatMap fun i => List.replicate stepsPerCaller (.caller i)

/-- The results of the callers that have ended of themselves. -/
def results (s : Sharing σ) : List (Except TokenFetchError String) :=
  s.callers.filterMap fun
    | .finished (.done result) => some result
    | _ => none

end Sharing

end GroupCalendar.Listing
