import GroupCalendar.Service

/-! # Contracts of programs

A contract says which requests are allowed in a state, and which replies may come in which next
states. A program meets a contract if all its requests are allowed, whatever replies come. The
runs against a handler are the case of a contract with a single reply to every request.
-/

namespace GroupCalendar

structure Contract (S : Signature) (γ : Type) where
  allows : S.Request → γ → Prop
  replies : (r : S.Request) → γ → S.Reply r → γ → Prop

namespace Contract

variable {S : Signature} {γ σ : Type}

/-- Everything may be asked of a handler, and it alone replies. -/
def ofHandler (handle : (r : S.Request) → σ → S.Reply r × σ) : Contract S σ where
  allows _ _ := True
  replies r s reply s' := handle r s = (reply, s')

/-- Some requests are allowed, and any reply may come. -/
def only (allowed : S.Request → Prop) : Contract S Unit where
  allows r _ := allowed r
  replies _ _ _ _ := True

/-- A contract that allows only some requests. -/
def restrict (k : Contract S γ) (allowed : S.Request → Prop) : Contract S γ where
  allows r g := k.allows r g ∧ allowed r
  replies := k.replies

end Contract

namespace Program

variable {S : Signature} {α β γ σ : Type} {k : Contract S γ}

/-- Every request of the program is allowed, and its end satisfies the postcondition. -/
def Meets (k : Contract S γ) : Program S α → γ → (α → γ → Prop) → Prop
  | .done a, g, post => post a g
  | .broken, _, _ => True
  | .exhausted, _, _ => True
  | .ask r next, g, post =>
    k.allows r g ∧ ∀ reply g', k.replies r g reply g' → (next reply).Meets k g' post

theorem Meets.mono {p : Program S α} {g : γ} {post post' : α → γ → Prop} (h : p.Meets k g post)
    (hp : ∀ a g, post a g → post' a g) : p.Meets k g post' := by
  induction p generalizing g with
  | done a => exact hp a g h
  | broken | exhausted => trivial
  | ask r next ih => exact ⟨h.1, fun reply g' hr => ih reply (h.2 reply g' hr)⟩

theorem Meets.and {p : Program S α} {g : γ} {post post' : α → γ → Prop} (h : p.Meets k g post)
    (h' : p.Meets k g post') : p.Meets k g fun a g => post a g ∧ post' a g := by
  induction p generalizing g with
  | done a => exact ⟨h, h'⟩
  | broken | exhausted => trivial
  | ask r next ih => exact ⟨h.1, fun reply g' hr => ih reply (h.2 reply g' hr) (h'.2 reply g' hr)⟩

theorem meets_bind {p : Program S α} {f : α → Program S β} {g : γ} {post : β → γ → Prop} :
    (p.bind f).Meets k g post ↔ p.Meets k g fun a g => (f a).Meets k g post := by
  induction p generalizing g with
  | done | broken | exhausted => exact Iff.rfl
  | ask r next ih =>
    exact and_congr_right fun _ =>
      forall_congr' fun reply => forall_congr' fun g' => imp_congr_right fun _ => ih reply

/-- Without any demand every program meets the contract that allows everything. -/
theorem meets_any (p : Program S α) (post : α → Unit → Prop) (h : ∀ a, post a ()) :
    p.Meets (.only fun _ => True) () post := by
  induction p with
  | done a => exact h a
  | broken | exhausted => trivial
  | ask r next ih => exact ⟨trivial, fun reply _ _ => ih reply⟩

section Restriction

variable {allowed allowed' : S.Request → Prop}

theorem Meets.only_mono {p : Program S α} {post : α → Unit → Prop}
    (h : p.Meets (.only allowed) () post) (ha : ∀ r, allowed r → allowed' r) :
    p.Meets (.only allowed') () post := by
  induction p with
  | done a => exact h
  | broken | exhausted => trivial
  | ask r next ih => exact ⟨ha r h.1, fun reply _ _ => ih reply (h.2 reply () trivial)⟩

/-- Whatever comes, the program asks for nothing but what is allowed, so it keeps to the restricted
contract as well. -/
theorem Meets.restrict {p : Program S α} {g : γ} {post : α → γ → Prop} (h : p.Meets k g post)
    (ho : p.Meets (.only allowed) () fun _ _ => True) : p.Meets (k.restrict allowed) g post := by
  induction p generalizing g with
  | done a => exact h
  | broken | exhausted => trivial
  | ask r next ih =>
    exact ⟨⟨h.1, ho.1⟩, fun reply g' hr => ih reply (h.2 reply g' hr) (ho.2 reply () trivial)⟩

theorem Meets.of_restrict {p : Program S α} {g : γ} {post : α → γ → Prop}
    (h : p.Meets (k.restrict allowed) g post) : p.Meets k g post := by
  induction p generalizing g with
  | done a => exact h
  | broken | exhausted => trivial
  | ask r next ih => exact ⟨h.1.1, fun reply g' hr => ih reply (h.2 reply g' hr)⟩

end Restriction

section Handler

variable {handle : (r : S.Request) → σ → S.Reply r × σ}

/-- What a program meets against a handler holds at the end of its run. -/
theorem Meets.of_run {p : Program S α} {s s' : σ} {a : α} {post : α → σ → Prop}
    (h : p.Meets (.ofHandler handle) s post) (hr : p.run handle s = (.done a, s')) :
    post a s' := by
  induction p generalizing s with
  | done b =>
    obtain ⟨hb, rfl⟩ := Prod.mk.inj hr
    exact Outcome.done.inj hb ▸ h
  | broken | exhausted => exact absurd (Prod.mk.inj hr).1 (by simp)
  | ask r next ih => exact ih _ (h.2 _ _ rfl) hr

/-- What holds at the end whatever is replied holds at the end of each run. -/
theorem Meets.of_run_only {allowed : S.Request → Prop} {p : Program S α} {s s' : σ} {a : α}
    {post : α → Unit → Prop} (h : p.Meets (.only allowed) () post)
    (hr : p.run handle s = (.done a, s')) : post a () := by
  induction p generalizing s with
  | done b =>
    obtain ⟨hb, -⟩ := Prod.mk.inj hr
    exact Outcome.done.inj hb ▸ h
  | broken | exhausted => exact absurd (Prod.mk.inj hr).1 (by simp)
  | ask r next ih => exact ih _ (h.2 _ () trivial) hr

theorem meets_run (p : Program S α) (s : σ) :
    p.Meets (.ofHandler handle) s fun a s' => p.run handle s = (.done a, s') := by
  induction p generalizing s with
  | done a => exact rfl
  | broken | exhausted => trivial
  | ask r next ih =>
    refine ⟨trivial, fun reply s' hr => (ih reply s').mono fun a s'' h => ?_⟩
    have hr : handle r s = (reply, s') := hr
    rw [run, hr]
    exact h

end Handler

end Program

namespace Task

variable {ε ε' α β γ : Type} {k : Contract Service.signature γ}

/-- Every request of the task is allowed, and its result, if it has one, satisfies the
postcondition. -/
def Ensures (k : Contract Service.signature γ) (t : Task ε α) (g : γ) (post : α → γ → Prop) :
    Prop :=
  t.run.Meets k g fun x g' => ∀ a, x = .ok a → post a g'

theorem Ensures.mono {t : Task ε α} {g : γ} {post post' : α → γ → Prop} (h : t.Ensures k g post)
    (hp : ∀ a g, post a g → post' a g) : t.Ensures k g post' :=
  Program.Meets.mono h fun _ _ hx a ha => hp a _ (hx a ha)

theorem Ensures.only_mono {t : Task ε α} {allowed allowed' : Service.Request → Prop}
    {post : α → Unit → Prop} (h : t.Ensures (.only allowed) () post)
    (ha : ∀ r, allowed r → allowed' r) : t.Ensures (.only allowed') () post :=
  Program.Meets.only_mono h ha

theorem Ensures.restrict {t : Task ε α} {allowed : Service.Request → Prop} {g : γ}
    {post : α → γ → Prop} (h : t.Ensures k g post)
    (ho : t.Ensures (.only allowed) () fun _ _ => True) :
    t.Ensures (k.restrict allowed) g post :=
  Program.Meets.restrict h (Program.Meets.mono ho fun _ _ _ => trivial)

theorem Ensures.of_restrict {t : Task ε α} {allowed : Service.Request → Prop} {g : γ}
    {post : α → γ → Prop} (h : t.Ensures (k.restrict allowed) g post) : t.Ensures k g post :=
  Program.Meets.of_restrict h

theorem Ensures.and {t : Task ε α} {g : γ} {post post' : α → γ → Prop} (h : t.Ensures k g post)
    (h' : t.Ensures k g post') : t.Ensures k g fun a g => post a g ∧ post' a g :=
  Program.Meets.mono (Program.Meets.and h h') fun _ _ hx a ha => ⟨hx.1 a ha, hx.2 a ha⟩

theorem ensures_pure {a : α} {g : γ} {post : α → γ → Prop} (h : post a g) :
    (pure a : Task ε α).Ensures k g post := by
  rintro b ⟨⟩
  exact h

theorem ensures_throw (e : ε) (g : γ) (post : α → γ → Prop) :
    (throw e : Task ε α).Ensures k g post := by
  rintro b ⟨⟩

theorem ensures_ofExcept {x : Except ε α} {g : γ} {post : α → γ → Prop}
    (h : ∀ a, x = .ok a → post a g) : (ofExcept x).Ensures k g post := h

theorem ensures_exhausted (g : γ) (post : α → γ → Prop) :
    (exhausted : Task ε α).Ensures k g post := trivial

theorem Ensures.bind {t : Task ε α} {f : α → Task ε β} {g : γ} {mid : α → γ → Prop}
    {post : β → γ → Prop} (ht : t.Ensures k g mid)
    (hf : ∀ a g', mid a g' → (f a).Ensures k g' post) : (t >>= f).Ensures k g post := by
  refine Program.meets_bind.mpr (Program.Meets.mono ht fun x g' hx => ?_)
  cases x with
  | ok a => exact hf a g' (hx a rfl)
  | error e => rintro b ⟨⟩

theorem Ensures.mapError {t : Task ε α} {f : ε → ε'} {g : γ} {post : α → γ → Prop}
    (h : t.Ensures k g post) : (mapError f t).Ensures k g post := by
  refine Program.meets_bind.mpr (Program.Meets.mono h fun x g' hx => ?_)
  cases x with
  | ok a =>
    rintro b ⟨⟩
    exact hx a rfl
  | error e => rintro b ⟨⟩

theorem ensures_bind {t : Task ε α} {f : α → Task ε β} {g : γ} {post : β → γ → Prop} :
    (t >>= f).Ensures k g post ↔ t.Ensures k g fun a g' => (f a).Ensures k g' post := by
  refine ⟨fun h => Program.Meets.mono (Program.meets_bind.mp h) fun x g' hx => ?_,
    fun h => h.bind fun _ _ hf => hf⟩
  rintro a rfl
  exact hx

theorem ensures_mapError {t : Task ε α} {f : ε → ε'} {g : γ} {post : α → γ → Prop} :
    (mapError f t).Ensures k g post ↔ t.Ensures k g post := by
  refine ⟨fun h => Program.Meets.mono (Program.meets_bind.mp h) fun x g' hx => ?_, .mapError⟩
  rintro a rfl
  exact hx a rfl

/-- A loop over a list keeps an invariant of the part that it has gone through. -/
theorem ensures_forM (xs : List α) {f : α → Task ε Unit} {g : γ} (inv : List α → γ → Prop)
    (h₀ : inv [] g)
    (h : ∀ done x rest g', xs = done ++ x :: rest → inv done g' →
      (f x).Ensures k g' fun _ g'' => inv (done ++ [x]) g'') :
    (xs.forM f).Ensures k g fun _ g' => inv xs g' := by
  induction xs generalizing g inv with
  | nil => exact ensures_pure h₀
  | cons x rest ih =>
    change (f x >>= fun _ => rest.forM f).Ensures k g _
    refine (h [] x rest g rfl h₀).bind fun _ g' hg' => ?_
    refine ih (fun done => inv (x :: done)) hg' fun done y rest' g'' hr hd => ?_
    exact h (x :: done) y rest' g'' (by rw [hr, List.cons_append]) hd

theorem ensures_wait {millis : Nat} {g : γ} {post : Unit → γ → Prop}
    (ha : k.allows (.wait millis) g)
    (hr : ∀ g', k.replies (.wait millis) g () g' → post () g') :
    (wait millis : Task ε Unit).Ensures k g post :=
  ⟨ha, fun _ g' h _ _ => hr g' h⟩

theorem ensures_query {q : Store.Query} {start : Option Item} {g : γ}
    (post : Store.Page → γ → Prop) (ha : k.allows (.store (.query q start)) g)
    (hr : ∀ page g', k.replies (.store (.query q start)) g (.ok page) g' → post page g') :
    (query q start).Ensures k g post :=
  ⟨ha, fun _ g' h page e => hr page g' (e ▸ h)⟩

theorem ensures_batchGet {table : String} {keys : List Item} {g : γ}
    (post : Store.Batch → γ → Prop) (ha : k.allows (.store (.batchGet table keys)) g)
    (hr : ∀ b g', k.replies (.store (.batchGet table keys)) g (.ok b) g' → post b g') :
    (batchGet table keys).Ensures k g post :=
  ⟨ha, fun _ g' h b e => hr b g' (e ▸ h)⟩

theorem ensures_batchWrite {table : String} {writes : List Store.Write} {g : γ}
    (post : List Store.Write → γ → Prop) (ha : k.allows (.store (.batchWrite table writes)) g)
    (hr : ∀ later g', k.replies (.store (.batchWrite table writes)) g (.ok later) g' →
      post later g') :
    (batchWrite table writes).Ensures k g post :=
  ⟨ha, fun _ g' h later e => hr later g' (e ▸ h)⟩

theorem ensures_graphQl {query : String} {arguments : Json} {g : γ} (post : Json → γ → Prop)
    (ha : k.allows (.graphQl query arguments) g)
    (hr : ∀ x g', k.replies (.graphQl query arguments) g (some (.ok x)) g' → post x g') :
    (graphQl query arguments).Ensures k g post := by
  refine ⟨ha, fun reply g' h => ?_⟩
  cases reply with
  | none => trivial
  | some answer => exact fun x e => hr x g' (e ▸ h)

end Task

end GroupCalendar
