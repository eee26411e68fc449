import GroupCalendar.Service

/-! # Results of tasks

A task returns a value or an error against a handler. What holds then, of either and of the state,
is put together from what holds when its parts return.
-/

namespace GroupCalendar.Task

variable {ε ε' α β σ : Type} {handle : (r : Service.Request) → σ → Service.Reply r × σ}
  {t : Task ε α} {f : α → Task ε β} {s s' : σ}

theorem run_bind_ok {a : α} (h : t.run.run handle s = (.done (.ok a), s')) :
    (t >>= f).run.run handle s = (f a).run.run handle s' := by
  rw [ExceptT.run_bind]
  exact (Program.run_bind handle t.run _ s).trans (by rw [h])

theorem run_bind_error {e : ε} (h : t.run.run handle s = (.done (.error e), s')) :
    (t >>= f).run.run handle s = (.done (.error e), s') := by
  rw [ExceptT.run_bind]
  exact (Program.run_bind handle t.run _ s).trans (by rw [h])

theorem run_mapError {x : Except ε α} (g : ε → ε') (h : t.run.run handle s = (.done x, s')) :
    (mapError g t).run.run handle s = (.done (x.mapError g), s') :=
  (Program.run_bind handle t.run (fun x => .done (x.mapError g)) s).trans (by rw [h]; rfl)

/-- The task returns a value or an error, of which a postcondition holds. -/
def Returns (handle : (r : Service.Request) → σ → Service.Reply r × σ) (t : Task ε α) (s : σ)
    (post : Except ε α → σ → Prop) : Prop :=
  ∃ x s', t.run.run handle s = (.done x, s') ∧ post x s'

theorem returns_pure {a : α} {post : Except ε α → σ → Prop} (h : post (.ok a) s) :
    (pure a : Task ε α).Returns handle s post :=
  ⟨.ok a, s, rfl, h⟩

theorem returns_throw {e : ε} {post : Except ε α → σ → Prop} (h : post (.error e) s) :
    (throw e : Task ε α).Returns handle s post :=
  ⟨.error e, s, rfl, h⟩

theorem Returns.bind {mid : Except ε α → σ → Prop} {post : Except ε β → σ → Prop}
    (h : t.Returns handle s mid) (hok : ∀ a s', mid (.ok a) s' → (f a).Returns handle s' post)
    (herror : ∀ e s', mid (.error e) s' → post (.error e) s') : (t >>= f).Returns handle s post := by
  obtain ⟨x, s', hrun, hmid⟩ := h
  cases x with
  | ok a =>
    obtain ⟨y, s'', hrun', hpost⟩ := hok a s' hmid
    exact ⟨y, s'', (run_bind_ok hrun).trans hrun', hpost⟩
  | error e => exact ⟨.error e, s', run_bind_error hrun, herror e s' hmid⟩

theorem Returns.mapError {g : ε → ε'} {post : Except ε' α → σ → Prop}
    (h : t.Returns handle s fun x s' => post (x.mapError g) s') :
    (mapError g t).Returns handle s post := by
  obtain ⟨x, s', hrun, hpost⟩ := h
  exact ⟨x.mapError g, s', run_mapError g hrun, hpost⟩

end GroupCalendar.Task
