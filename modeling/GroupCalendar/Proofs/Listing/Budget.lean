import GroupCalendar.Listing.Walk

/-! # Larger budgets

A program is part of another one if it does the same until its repetitions are used up. A run that
comes to another end is the run of the whole as well. Walking a listing with a budget of pages is
part of walking it with a larger one.
-/

namespace GroupCalendar

namespace Program

variable {S : Signature} {α β σ : Type}

/-- The same requests and the same end, unless the repetitions are used up before. -/
inductive PartOf : Program S α → Program S α → Prop
  | done (a : α) : PartOf (.done a) (.done a)
  | broken : PartOf .broken .broken
  | exhausted (p : Program S α) : PartOf .exhausted p
  | ask (r : S.Request) {next next' : S.Reply r → Program S α} :
      (∀ reply, PartOf (next reply) (next' reply)) → PartOf (.ask r next) (.ask r next')

theorem PartOf.refl (p : Program S α) : p.PartOf p := by
  induction p with
  | done a => exact .done a
  | broken => exact .broken
  | exhausted => exact .exhausted _
  | ask r next ih => exact .ask r ih

theorem PartOf.bind {p p' : Program S α} {f f' : α → Program S β} (h : p.PartOf p')
    (hf : ∀ a, (f a).PartOf (f' a)) : (p.bind f).PartOf (p'.bind f') := by
  induction h with
  | done a => exact hf a
  | broken => exact .broken
  | exhausted p => exact .exhausted _
  | ask r _ ih => exact .ask r ih

/-- A run of a part that comes to an end is the run of the whole. -/
theorem PartOf.run_eq {p p' : Program S α} (h : p.PartOf p')
    {handle : (r : S.Request) → σ → S.Reply r × σ} {s s' : σ} {o : Outcome α}
    (hr : p.run handle s = (o, s')) (ho : o ≠ .exhausted) : p'.run handle s = (o, s') := by
  induction h generalizing s with
  | done a => exact hr
  | broken => exact hr
  | exhausted p => exact absurd (Prod.mk.inj hr).1.symm ho
  | ask r _ ih => exact ih _ hr

end Program

/-- The same for tasks. -/
def Task.PartOf {ε α : Type} (t t' : Task ε α) : Prop :=
  Program.PartOf t.run t'.run

theorem Task.PartOf.bind {ε α β : Type} {t t' : Task ε α} {f f' : α → Task ε β} (h : t.PartOf t')
    (hf : ∀ a, (f a).PartOf (f' a)) : (t >>= f).PartOf (t' >>= f') := by
  refine Program.PartOf.bind h fun x => ?_
  cases x with
  | ok a => exact hf a
  | error e => exact .done _

namespace Listing

variable {group : String} {limit : Instant} {pages pages' : Nat}

theorem eventsFrom_partOf (h : pages ≤ pages') (cursor : Option String) :
    (eventsFrom group limit pages cursor).PartOf (eventsFrom group limit pages' cursor) := by
  induction pages generalizing pages' cursor with
  | zero => exact .exhausted _
  | succ pages ih =>
    cases pages' with
    | zero => cases h
    | succ pages' =>
      refine Task.PartOf.bind (.refl _) fun page => ?_
      split
      · exact .refl _
      · split
        · exact .refl _
        · next next _ =>
          refine (ih (Nat.le_of_succ_le_succ h) (some next)).bind fun events => ?_
          exact .refl _

/-- More pages than are needed are not requested. -/
theorem eventsUntil_run_eq {σ : Type} {handle : (r : Service.Request) → σ → Service.Reply r × σ}
    {s s' : σ} {events : List Event}
    (h : (eventsUntil pages group limit).run.run handle s = (.done (.ok events), s'))
    (hle : pages ≤ pages') :
    (eventsUntil pages' group limit).run.run handle s = (.done (.ok events), s') :=
  (eventsFrom_partOf hle none).run_eq h nofun

end Listing

end GroupCalendar
