import GroupCalendar.Import.Summary

/-! # Scheduling an import

Workers take turns in the order in which they became ready; a turn lasts until the worker waits or
ends. Permits pass to waiting workers in their order. When nobody is ready, time moves on to the
next wake-up, unless the deadline comes first.
-/

namespace GroupCalendar.Import

/-- How a turn ends. -/
inductive Turn where
  | waits (millis : Nat) (next : Work)
  | ends (result : Result)

variable {σ : Type}

/-- Work done until the next wait. -/
def takeTurn (handle : Handler σ) : Work → σ → Turn × σ
  | .done a, s => (.ends (.done a), s)
  | .broken, s => (.ends .broken, s)
  | .exhausted, s => (.ends .exhausted, s)
  | .ask (.wait millis) next, s => (.waits millis (next ()), s)
  | .ask (.store r) next, s =>
    let (reply, s) := handle (.store r) s
    takeTurn handle (next reply) s
  | .ask (.graphQl query arguments) next, s =>
    let (reply, s) := handle (.graphQl query arguments) s
    takeTurn handle (next reply) s

/-- Who is ready, who waits for a permit, who sleeps until when, and who has finished, each in the
order in which they came there; and the milliseconds that have passed. -/
structure Schedule (σ : Type) where
  run : Run σ
  ready : List Nat
  line : List Nat := []
  asleep : List (Nat × Nat) := []
  finished : List Nat := []
  elapsed : Nat := 0

namespace Schedule

def start (work : String → Work) (groups : List String) (state : σ) : Schedule σ :=
  { run := Run.start work groups state, ready := List.range groups.length }

/-- Worker `i` does its work until it waits or ends. -/
def work (handle : Handler σ) (i : Nat) (w : Work) (s : Schedule σ) : Schedule σ :=
  let (turn, state) := takeTurn handle w s.run.state
  let run := { s.run with state := state }
  match turn with
  | .waits millis next =>
    { s with
      run := run.setPhase i (.working next)
      asleep := s.asleep ++ [(s.elapsed + millis, i)] }
  | .ends result =>
    { s with
      run := run.finish i result
      finished := s.finished ++ [i]
      ready := s.ready ++ s.line.take 1
      line := s.line.drop 1 }

/-- The turn of worker `i`. -/
def turn (handle : Handler σ) (i : Nat) (s : Schedule σ) : Schedule σ :=
  match s.run.phase? i with
  | some (.waiting w) =>
    if s.run.free = 0 then { s with line := s.line ++ [i] }
    else
      let run := { s.run.setPhase i (.working w) with free := s.run.free - 1 }
      { s with run := run }.work handle i w
  | some (.working w) => s.work handle i w
  | _ => s

/-- The time at which the next sleeper wakes. -/
def nextWake? (s : Schedule σ) : Option Nat :=
  (s.asleep.map (·.1)).min?

/-- Time moved on, and the sleepers of that time woken. -/
def wake (s : Schedule σ) (time : Nat) : Schedule σ :=
  let (up, rest) := s.asleep.partition (·.1 = time)
  { s with elapsed := time, asleep := rest, ready := s.ready ++ up.map (·.2) }

inductive Ending where
  | completed
  | timedOut
  | exhausted
  deriving DecidableEq, Repr

/-- Turns and wake-ups until all have finished or the deadline comes, at most so many. -/
def go (handle : Handler σ) (deadline : Option Nat) : Nat → Schedule σ → Ending × Schedule σ
  | 0, s => (.exhausted, s)
  | fuel + 1, s =>
    match s.ready, s.nextWake? with
    | i :: rest, _ => go handle deadline fuel ({ s with ready := rest }.turn handle i)
    | [], none => (.completed, s)
    | [], some time =>
      match deadline with
      | some limit =>
        if limit ≤ time then (.timedOut, { s with elapsed := limit })
        else go handle deadline fuel (s.wake time)
      | none => go handle deadline fuel (s.wake time)

/-- The whole import. A deadline of zero has passed before the first turn. -/
def complete (handle : Handler σ) (deadline : Option Nat) (fuel : Nat) (s : Schedule σ) :
    Ending × Schedule σ :=
  if deadline = some 0 ∧ !s.ready.isEmpty then (.timedOut, s)
  else go handle deadline fuel s

def summary (s : Schedule σ) : Summary :=
  .ofWorkers s.run.workers s.finished

end Schedule

/-- The message of an import that met its deadline, given in milliseconds. -/
def deadlineMessage (millis : Nat) : String :=
  s!"import did not finish within {millis / 1000} seconds"

end GroupCalendar.Import
