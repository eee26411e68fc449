import GroupCalendar.Proofs.Program.Contract

/-! # Tasks that complete

A task completes under a contract if it ends with a result whatever replies come: it neither fails,
nor breaks off, nor uses up its repetitions.
-/

namespace GroupCalendar

namespace Program

variable {S : Signature} {ε α β γ σ : Type} {k : Contract S γ}

/-- Every request is allowed, and a result that satisfies the postcondition comes at the end. -/
def Completes (k : Contract S γ) : Program S (Except ε α) → γ → (α → γ → Prop) → Prop
  | .done (.ok a), g, post => post a g
  | .done (.error _), _, _ => False
  | .broken, _, _ => False
  | .exhausted, _, _ => False
  | .ask r next, g, post =>
    k.allows r g ∧ ∀ reply g', k.replies r g reply g' → (next reply).Completes k g' post

theorem Completes.meets {p : Program S (Except ε α)} {g : γ} {post : α → γ → Prop}
    (h : p.Completes k g post) : p.Meets k g fun x g' => ∀ a, x = .ok a → post a g' := by
  induction p generalizing g with
  | done x =>
    cases x with
    | ok a =>
      rintro b ⟨⟩
      exact h
    | error e => exact h.elim
  | broken | exhausted => trivial
  | ask r next ih => exact ⟨h.1, fun reply g' hr => ih reply (h.2 reply g' hr)⟩

theorem Completes.mono {p : Program S (Except ε α)} {g : γ} {post post' : α → γ → Prop}
    (h : p.Completes k g post) (hp : ∀ a g, post a g → post' a g) : p.Completes k g post' := by
  induction p generalizing g with
  | done x =>
    cases x with
    | ok a => exact hp a g h
    | error e => exact h.elim
  | broken | exhausted => exact h.elim
  | ask r next ih => exact ⟨h.1, fun reply g' hr => ih reply (h.2 reply g' hr)⟩

/-- With a postcondition that it satisfies anyway, a program completes as it does without. -/
theorem Completes.and_meets {p : Program S (Except ε α)} {g : γ} {allowed : S.Request → Prop}
    {post post' : α → γ → Prop} (h : p.Completes (k.restrict allowed) g post)
    (h' : p.Meets k g fun x g' => ∀ a, x = .ok a → post' a g') :
    p.Completes (k.restrict allowed) g fun a g => post a g ∧ post' a g := by
  induction p generalizing g with
  | done x =>
    cases x with
    | ok a => exact ⟨h, h' a rfl⟩
    | error e => exact h.elim
  | broken | exhausted => exact h.elim
  | ask r next ih => exact ⟨h.1, fun reply g' hr => ih reply (h.2 reply g' hr) (h'.2 reply g' hr)⟩

theorem Completes.bind {ε' : Type} {p : Program S (Except ε α)}
    {f : Except ε α → Program S (Except ε' β)} {g : γ} {mid : α → γ → Prop} {post : β → γ → Prop}
    (h : p.Completes k g mid) (hf : ∀ a g', mid a g' → (f (.ok a)).Completes k g' post) :
    (p.bind f).Completes k g post := by
  induction p generalizing g with
  | done x =>
    cases x with
    | ok a => exact hf a g h
    | error e => exact h.elim
  | broken | exhausted => exact h.elim
  | ask r next ih => exact ⟨h.1, fun reply g' hr => ih reply (h.2 reply g' hr)⟩

theorem Completes.of_restrict {p : Program S (Except ε α)} {g : γ} {allowed : S.Request → Prop}
    {post : α → γ → Prop} (h : p.Completes (k.restrict allowed) g post) : p.Completes k g post := by
  induction p generalizing g with
  | done x =>
    cases x with
    | ok a => exact h
    | error e => exact h.elim
  | broken | exhausted => exact h.elim
  | ask r next ih => exact ⟨h.1.1, fun reply g' hr => ih reply (h.2 reply g' hr)⟩

section Handler

variable {handle : (r : S.Request) → σ → S.Reply r × σ} {p : Program S (Except ε α)} {s s' : σ}
  {a : α}

/-- A program that completes against a handler runs to a result. -/
theorem Completes.exists_run {post : α → σ → Prop} (h : p.Completes (.ofHandler handle) s post) :
    ∃ a s', p.run handle s = (.done (.ok a), s') ∧ post a s' := by
  induction p generalizing s with
  | done x =>
    cases x with
    | ok a => exact ⟨a, s, rfl, h⟩
    | error e => exact h.elim
  | broken | exhausted => exact h.elim
  | ask r next ih => exact ih _ (h.2 _ _ rfl)

theorem completes_of_run (h : p.run handle s = (.done (.ok a), s')) :
    p.Completes (.ofHandler handle) s fun b t => b = a ∧ t = s' := by
  induction p generalizing s with
  | done x =>
    cases h
    exact ⟨rfl, rfl⟩
  | broken | exhausted => cases h
  | ask r next ih =>
    refine ⟨trivial, fun reply t hr => ih reply ?_⟩
    have hr : handle r s = (reply, t) := hr
    rw [run, hr] at h
    exact h

end Handler

end Program

namespace Task

variable {ε ε' α β γ : Type} {k : Contract Service.signature γ}

/-- Every request of the task is allowed, and a result that satisfies the postcondition comes. -/
def Completes (k : Contract Service.signature γ) (t : Task ε α) (g : γ) (post : α → γ → Prop) :
    Prop :=
  Program.Completes k t.run g post

theorem Completes.ensures {t : Task ε α} {g : γ} {post : α → γ → Prop}
    (h : t.Completes k g post) : t.Ensures k g post :=
  Program.Completes.meets h

theorem Completes.mono {t : Task ε α} {g : γ} {post post' : α → γ → Prop}
    (h : t.Completes k g post) (hp : ∀ a g, post a g → post' a g) : t.Completes k g post' :=
  Program.Completes.mono h hp

theorem Completes.and_ensures {t : Task ε α} {g : γ} {allowed : Service.Request → Prop}
    {post post' : α → γ → Prop} (h : t.Completes (k.restrict allowed) g post)
    (h' : t.Ensures k g post') :
    t.Completes (k.restrict allowed) g fun a g => post a g ∧ post' a g :=
  Program.Completes.and_meets h h'

theorem Completes.of_restrict {t : Task ε α} {g : γ} {allowed : Service.Request → Prop}
    {post : α → γ → Prop} (h : t.Completes (k.restrict allowed) g post) : t.Completes k g post :=
  Program.Completes.of_restrict h

theorem completes_pure {a : α} {g : γ} {post : α → γ → Prop} (h : post a g) :
    (pure a : Task ε α).Completes k g post := h

theorem Completes.bind {t : Task ε α} {f : α → Task ε β} {g : γ} {mid : α → γ → Prop}
    {post : β → γ → Prop} (h : t.Completes k g mid)
    (hf : ∀ a g', mid a g' → (f a).Completes k g' post) : (t >>= f).Completes k g post :=
  Program.Completes.bind h hf

theorem Completes.mapError {t : Task ε α} {f : ε → ε'} {g : γ} {post : α → γ → Prop}
    (h : t.Completes k g post) : (mapError f t).Completes k g post :=
  Program.Completes.bind h fun _ _ ha => ha

theorem completes_ofExcept {x : Except ε α} {a : α} {g : γ} {post : α → γ → Prop} (hx : x = .ok a)
    (h : post a g) : (ofExcept x).Completes k g post := by
  subst hx
  exact h

/-- A loop over a list completes with each of its passes. -/
theorem completes_forM {xs : List α} {f : α → Task ε Unit} {g : γ} (inv : γ → Prop) (h₀ : inv g)
    (h : ∀ x ∈ xs, ∀ g', inv g' → (f x).Completes k g' fun _ g'' => inv g'') :
    (xs.forM f).Completes k g fun _ g' => inv g' := by
  induction xs generalizing g with
  | nil => exact completes_pure h₀
  | cons x rest ih =>
    obtain ⟨hx, hrest⟩ := List.forall_mem_cons.mp h
    change (f x >>= fun _ => rest.forM f).Completes k g _
    exact (hx g h₀).bind fun _ g' hg' => ih hg' hrest

theorem completes_query {q : Store.Query} {start : Option Item} {g : γ}
    {post : Store.Page → γ → Prop} (ha : k.allows (.store (.query q start)) g)
    (hr : ∀ reply g', k.replies (.store (.query q start)) g reply g' →
      ∃ page, reply = .ok page ∧ post page g') :
    (query q start).Completes k g post := by
  refine ⟨ha, fun reply g' h => ?_⟩
  obtain ⟨page, rfl, hp⟩ := hr reply g' h
  exact hp

theorem completes_batchGet {table : String} {keys : List Item} {g : γ}
    {post : Store.Batch → γ → Prop}
    (ha : k.allows (.store (.batchGet table keys)) g)
    (hr : ∀ reply g', k.replies (.store (.batchGet table keys)) g reply g' →
      ∃ b, reply = .ok b ∧ post b g') :
    (batchGet table keys).Completes k g post := by
  refine ⟨ha, fun reply g' h => ?_⟩
  obtain ⟨b, rfl, hb⟩ := hr reply g' h
  exact hb

theorem completes_batchWrite {table : String} {writes : List Store.Write} {g : γ}
    {post : List Store.Write → γ → Prop} (ha : k.allows (.store (.batchWrite table writes)) g)
    (hr : ∀ reply g', k.replies (.store (.batchWrite table writes)) g reply g' →
      ∃ later, reply = .ok later ∧ post later g') :
    (batchWrite table writes).Completes k g post := by
  refine ⟨ha, fun reply g' h => ?_⟩
  obtain ⟨later, rfl, hl⟩ := hr reply g' h
  exact hl

end Task

end GroupCalendar
