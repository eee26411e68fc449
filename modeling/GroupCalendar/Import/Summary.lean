import GroupCalendar.Import.Run

/-! # Summary of an import

A worker that returns brings its group with its result. One that breaks off brings its number
only, and its group is found under that number. The summary is put together in the order in which
the workers come back.
-/

namespace GroupCalendar.Import

/-- What comes back of a worker. -/
inductive Joined where
  | returned (group : String) (result : Except ImportError GroupImport)
  | broken (number : Nat)

/-- What comes back of the worker of a number, once it has finished. -/
def Worker.joined? (number : Nat) (w : Worker) : Option Joined :=
  match w.phase with
  | .finished (.done x) => some (.returned w.group x)
  | .finished .broken | .finished .exhausted => some (.broken number)
  | .waiting _ | .working _ => none

/-- What an import has done. -/
structure Summary where
  succeeded : List GroupImport := []
  failed : List String := []
  deriving DecidableEq, Repr

namespace Summary

/-- No group has failed. -/
def isComplete (s : Summary) : Bool := s.failed.isEmpty

/-- The groups of workers under their numbers. -/
def numbered (ws : List Worker) : List (Nat × String) :=
  ws.zipIdx.map fun (w, i) => (i, w.group)

/-- A summary and groups under numbers, gone through with what comes back. A group is taken out
when its worker has broken off. -/
def join (s : Summary) : List (Nat × String) → List Joined → Summary
  | _, [] => s
  | groups, .returned _ (.ok g) :: rest =>
    join { s with succeeded := s.succeeded ++ [g] } groups rest
  | groups, .returned group (.error _) :: rest =>
    join { s with failed := s.failed ++ [group] } groups rest
  | groups, .broken n :: rest =>
    join { s with failed := s.failed ++ [(groups.lookup n).getD ""] }
      (groups.filter fun g => g.1 != n) rest

/-- The summary of workers that come back in the order of some numbers. -/
def ofWorkers (ws : List Worker) (order : List Nat) : Summary :=
  join {} (numbered ws) (order.filterMap fun i => (ws[i]?).bind (·.joined? i))

end Summary

end GroupCalendar.Import
