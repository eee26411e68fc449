import GroupCalendar.Import.Group

/-! # Import of many groups

Every group has a worker. A worker starts when one of three permits is free and gives its permit
back at its end, also when it breaks off. Workers take steps in any order; each step of a worker
that holds a permit is one request to the services or the end of its work.
-/

namespace GroupCalendar.Import

/-- Number of permits. -/
def maxConcurrent : Nat := 3

/-- What a worker has to do. -/
abbrev Work := Program Service.signature (Except ImportError GroupImport)

abbrev Result := Outcome (Except ImportError GroupImport)

inductive Phase where
  | waiting (work : Work)
  /-- Holds a permit. -/
  | working (work : Work)
  | finished (result : Result)

structure Worker where
  group : String
  phase : Phase

/-- Workers, free permits, and the state of the services. -/
structure Run (σ : Type) where
  workers : List Worker
  free : Nat
  state : σ

abbrev Handler (σ : Type) := (r : Service.Request) → σ → Service.Reply r × σ

namespace Run

variable {σ : Type}

/-- All workers wait. -/
def start (work : String → Work) (groups : List String) (state : σ) : Run σ :=
  ⟨groups.map fun g => ⟨g, .waiting (work g)⟩, maxConcurrent, state⟩

def setPhase (r : Run σ) (i : Nat) (phase : Phase) : Run σ :=
  { r with workers := r.workers.modify i fun w => { w with phase := phase } }

def phase? (r : Run σ) (i : Nat) : Option Phase :=
  (r.workers[i]?).map fun w => w.phase

/-- Worker `i` ends and gives back its permit. -/
def finish (r : Run σ) (i : Nat) (result : Result) : Run σ :=
  { r.setPhase i (.finished result) with free := r.free + 1 }

/-- One step of worker `i`; nothing happens when it cannot take one. -/
def step (handle : Handler σ) (i : Nat) (r : Run σ) : Run σ :=
  match r.phase? i with
  | some (.waiting work) =>
    if r.free = 0 then r else { r.setPhase i (.working work) with free := r.free - 1 }
  | some (.working (.done a)) => r.finish i (.done a)
  | some (.working .broken) => r.finish i .broken
  | some (.working .exhausted) => r.finish i .exhausted
  | some (.working (.ask q next)) =>
    let (reply, state) := handle q r.state
    { r.setPhase i (.working (next reply)) with state := state }
  | some (.finished _) | none => r

/-- The steps of a schedule, which names a worker for each. -/
def steps (handle : Handler σ) (schedule : List Nat) (r : Run σ) : Run σ :=
  schedule.foldl (fun r i => r.step handle i) r

end Run

end GroupCalendar.Import
