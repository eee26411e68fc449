import GroupCalendar.Proofs.Listing.Requests
import GroupCalendar.Proofs.Store.Answers

/-! # Sessions

A session answers requests to the store from memory and requests for GraphQL answers from a source
with a state of its own. A wait takes no time. A task that asks for GraphQL answers only runs in the
same way whatever the memory holds.
-/

namespace GroupCalendar

open Store

namespace Service

variable {ω : Type}

/-- A source of GraphQL answers, which may break off. -/
abbrev Source (ω : Type) := String → Json → ω → Option (Except GraphQlError Json) × ω

/-- A request that writes nothing. -/
def Request.IsReading (r : Request) : Prop :=
  ∀ table ws, r ≠ .store (.batchWrite table ws)

/-- The answers of a session. -/
def answer (source : Source ω) : (r : Request) → Memory × ω → Reply r × (Memory × ω)
  | .store r, (m, w) => ((m.answer r).1, (m.answer r).2, w)
  | .graphQl query arguments, (m, w) =>
    ((source query arguments w).1, m, (source query arguments w).2)
  | .wait _, s => ((), s)

/-- The contract of a session. -/
abbrev session (source : Source ω) : Contract signature (Memory × ω) :=
  .ofHandler (answer source)

theorem run_graphQl {α : Type} (source : Source ω) {p : Program signature α}
    (h : p.Meets (.only Request.IsGraphQl) () fun _ _ => True) (m m' : Memory) (w : ω) :
    p.run (answer source) (m', w) =
      ((p.run (answer source) (m, w)).1, m', (p.run (answer source) (m, w)).2.2) ∧
    (p.run (answer source) (m, w)).2.1 = m := by
  induction p generalizing w with
  | done | broken | exhausted => exact ⟨rfl, rfl⟩
  | ask r next ih =>
    obtain ⟨ha, hn⟩ := h
    cases r with
    | graphQl query arguments => exact ih _ (hn _ () trivial) (source query arguments w).2
    | store r | wait millis => exact ha.elim

/-- Only writes change what a store holds. -/
theorem answer_same {source : Source ω} {m : Memory} {q : Request} (hq : q.IsReading) (w : ω) :
    m.Same (answer source q (m, w)).2.1 := by
  match q with
  | .wait _ | .graphQl .. => exact .refl m
  | .store (.query q start) => exact m.query_same q start
  | .store (.getItem table key) => exact m.getItem_same table key
  | .store (.batchGet table keys) => exact (m.batchGet_found table keys).1
  | .store (.batchWrite table ws) => exact absurd rfl (hq table ws)

/-- A program that does not write leaves the store as it is. -/
theorem run_same {α : Type} (source : Source ω) {p : Program signature α}
    (h : p.Meets (.only Request.IsReading) () fun _ _ => True) (m : Memory) (w : ω) :
    m.Same (p.run (answer source) (m, w)).2.1 := by
  induction p generalizing m w with
  | done | broken | exhausted => exact .refl m
  | ask r next ih =>
    exact (answer_same h.1 w).trans (ih _ (h.2 _ () trivial) _ _)

/-- What every answer of the store keeps, a program keeps. -/
theorem run_keeps {α : Type} {inv : Memory → Prop} (h : ∀ m r, inv m → inv (m.answer r).2)
    (source : Source ω) (p : Program signature α) {m : Memory} (hm : inv m) (w : ω) :
    inv (p.run (answer source) (m, w)).2.1 := by
  induction p generalizing m w with
  | done | broken | exhausted => exact hm
  | ask r next ih =>
    cases r with
    | store r => exact ih _ (h m r hm) w
    | graphQl query arguments | wait millis => exact ih _ hm _

end Service

namespace Outcome

variable {ε α : Type}

/-- The value of a task that has succeeded. -/
def value? : Outcome (Except ε α) → Option α
  | .done (.ok a) => some a
  | _ => none

theorem eq_of_value? {o : Outcome (Except ε α)} {a : α} (h : o.value? = some a) :
    o = .done (.ok a) := by
  match o with
  | .done (.ok b) => rw [Option.some.inj h]
  | .done (.error _) | .broken | .exhausted => cases h

end Outcome

namespace Task

open Service

variable {ε α ω : Type} {source : Source ω}

theorem ensures_run (t : Task ε α) (s : Memory × ω) :
    t.Ensures (session source) s fun a s' => t.run.run (answer source) s = (.done (.ok a), s') := by
  refine (Program.meets_run t.run s).mono fun x s' h a e => ?_
  subst e
  exact h

theorem Ensures.of_run {t : Task ε α} {s s' : Memory × ω} {a : α} {post : α → Memory × ω → Prop}
    (h : t.Ensures (session source) s post)
    (hr : t.run.run (answer source) s = (.done (.ok a), s')) : post a s' :=
  Program.Meets.of_run h hr a rfl

/-- The result of a task that asks for GraphQL answers only does not depend on the memory. -/
theorem ensures_run_graphQl {t : Task ε α}
    (h : t.Ensures (.only Request.IsGraphQl) () fun _ _ => True) (m m' : Memory) (w : ω) :
    t.Ensures (session source) (m', w) fun a s =>
      s.1 = m' ∧ t.run.run (answer source) (m, w) = (.done (.ok a), m, s.2) := by
  refine (ensures_run t (m', w)).mono fun a s hs => ?_
  have hg := Program.Meets.mono h fun _ _ _ => trivial
  obtain ⟨hr, hm⟩ := run_graphQl source hg m m' w
  rw [hr] at hs
  obtain ⟨ho, hs⟩ := Prod.mk.inj hs
  subst hs
  exact ⟨rfl, Prod.ext ho (Prod.ext hm rfl)⟩

end Task

end GroupCalendar
