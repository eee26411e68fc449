/-! # Programs with requests

A program computes, or asks its surroundings and goes on with their reply. A signature lists the
requests and the type of reply each one has. Running a program against a handler with a state is
recursion on the program, so every program comes to an end.
-/

namespace GroupCalendar

structure Signature where
  Request : Type
  Reply : Request → Type

/-- A program that ends with a value, breaks off, or has used up its repetitions. -/
inductive Program (S : Signature) (α : Type) where
  | done (a : α)
  | broken
  | exhausted
  | ask (r : S.Request) (next : S.Reply r → Program S α)

/-- How a program ends. -/
inductive Outcome (α : Type) where
  | done (a : α)
  | broken
  | exhausted
  deriving DecidableEq, Repr

namespace Program

variable {S T : Signature} {α β γ σ : Type}

def bind (p : Program S α) (f : α → Program S β) : Program S β :=
  match p with
  | .done a => f a
  | .broken => .broken
  | .exhausted => .exhausted
  | .ask r next => .ask r fun reply => (next reply).bind f

instance : Monad (Program S) where
  pure := .done
  bind := bind

/-- One request. -/
def request (r : S.Request) : Program S (S.Reply r) :=
  .ask r .done

/-- The end of a program against a handler, and the state then. -/
def run (handle : (r : S.Request) → σ → S.Reply r × σ) : Program S α → σ → Outcome α × σ
  | .done a, s => (.done a, s)
  | .broken, s => (.broken, s)
  | .exhausted, s => (.exhausted, s)
  | .ask r next, s =>
    let (reply, s) := handle r s
    (next reply).run handle s

/-- The end of a program whose requests are answered in a monad. -/
def runIn {m : Type → Type} [Monad m] (answer : (r : S.Request) → m (S.Reply r)) :
    Program S α → m (Outcome α)
  | .done a => pure (.done a)
  | .broken => pure .broken
  | .exhausted => pure .exhausted
  | .ask r next => do (next (← answer r)).runIn answer

/-- Every request answered by a program over other requests. -/
def interpret (answer : (r : S.Request) → Program T (S.Reply r)) : Program S α → Program T α
  | .done a => .done a
  | .broken => .broken
  | .exhausted => .exhausted
  | .ask r next => (answer r).bind fun reply => (next reply).interpret answer

@[simp]
theorem done_bind (a : α) (f : α → Program S β) : (Program.done a).bind f = f a := rfl

@[simp]
theorem bind_done (p : Program S α) : p.bind .done = p := by
  induction p with
  | done | broken | exhausted => rfl
  | ask r next ih => simp [bind, ih]

theorem bind_assoc (p : Program S α) (f : α → Program S β) (g : β → Program S γ) :
    (p.bind f).bind g = p.bind fun a => (f a).bind g := by
  induction p with
  | done | broken | exhausted => rfl
  | ask r next ih => simp [bind, ih]

instance : LawfulMonad (Program S) :=
  LawfulMonad.mk' _ (fun p => bind_done p) (fun _ _ => rfl) bind_assoc

/-- A run of a composed program goes on from the state in which its first part ends. -/
theorem run_bind (handle : (r : S.Request) → σ → S.Reply r × σ) (p : Program S α)
    (f : α → Program S β) (s : σ) :
    (p.bind f).run handle s =
      match p.run handle s with
      | (.done a, s) => (f a).run handle s
      | (.broken, s) => (.broken, s)
      | (.exhausted, s) => (.exhausted, s) := by
  induction p generalizing s with
  | done | broken | exhausted => rfl
  | ask r next ih => simp [bind, run, ih]

end Program

end GroupCalendar
