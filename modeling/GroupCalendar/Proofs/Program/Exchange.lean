import GroupCalendar.Proofs.Program.Contract

/-! # Exchanges

The requests of a program and their replies, in their order. A contract on exchanges says which
request is allowed after those that were made; every reply may come.
-/

namespace GroupCalendar

/-- A request and the reply to it. -/
structure Exchange (S : Signature) where
  request : S.Request
  reply : S.Reply request

variable {S : Signature} {α γ : Type}

/-- What is asked next depends on the exchanges so far, and any reply may come. -/
def Contract.logged (allowed : List (Exchange S) → S.Request → Prop) :
    Contract S (List (Exchange S)) where
  allows r log := allowed log r
  replies r log reply log' := log' = log ++ [⟨r, reply⟩]

/-- A program may make these exchanges, and then it ends so. -/
inductive Program.Plays : Program S α → List (Exchange S) → Outcome α → Prop
  | done {a} : Plays (.done a) [] (.done a)
  | broken : Plays .broken [] .broken
  | exhausted : Plays .exhausted [] .exhausted
  | ask {r next reply xs outcome} (h : Plays (next reply) xs outcome) :
    Plays (.ask r next) (⟨r, reply⟩ :: xs) outcome

/-- The end with what is made of the value. -/
def Outcome.map {β : Type} (f : α → β) : Outcome α → Outcome β
  | .done a => .done (f a)
  | .broken => .broken
  | .exhausted => .exhausted

namespace Program

variable {xs : List (Exchange S)} {outcome : Outcome α}

@[simp]
theorem plays_done {a : α} : (Program.done a).Plays xs outcome ↔ xs = [] ∧ outcome = .done a :=
  ⟨fun h => (by cases h; exact ⟨rfl, rfl⟩), fun ⟨hx, ho⟩ => hx ▸ ho ▸ .done⟩

@[simp]
theorem plays_ask {r : S.Request} {next : S.Reply r → Program S α} :
    (Program.ask r next).Plays xs outcome ↔
      ∃ reply rest, xs = ⟨r, reply⟩ :: rest ∧ (next reply).Plays rest outcome :=
  ⟨fun h => (by cases h with | ask h => exact ⟨_, _, rfl, h⟩),
    fun ⟨_, _, hx, h⟩ => hx ▸ .ask h⟩

/-- Whatever makes an exchange asks for it first. -/
theorem Plays.of_cons {p : Program S α} {x : Exchange S} (h : p.Plays (x :: xs) outcome) :
    ∃ next, p = .ask x.request next ∧ (next x.reply).Plays xs outcome := by
  cases h with
  | ask h => exact ⟨_, rfl, h⟩

end Program

/-- A program that asks for some requests only keeps what they keep. -/
theorem Program.Meets.of_only {k : Contract S γ} {allowed : S.Request → Prop} {inv : γ → Prop}
    {p : Program S α} {post : α → Unit → Prop} {g : γ} (h : p.Meets (.only allowed) () post)
    (hk : ∀ r g, allowed r → inv g →
      k.allows r g ∧ ∀ reply g', k.replies r g reply g' → inv g')
    (hg : inv g) : p.Meets k g fun _ g' => inv g' := by
  induction p generalizing g with
  | done a => exact hg
  | broken | exhausted => trivial
  | ask r next ih =>
    obtain ⟨hallows, hreplies⟩ := hk r g h.1 hg
    exact ⟨hallows, fun reply g' hr => ih reply (h.2 reply () trivial) (hreplies reply g' hr)⟩

theorem Task.Ensures.of_only {ε : Type} {k : Contract Service.signature γ}
    {allowed : Service.Request → Prop} {inv : γ → Prop} {t : Task ε α} {post : α → Unit → Prop}
    {g : γ} (h : t.Ensures (.only allowed) () post)
    (hk : ∀ r g, allowed r → inv g →
      k.allows r g ∧ ∀ reply g', k.replies r g reply g' → inv g')
    (hg : inv g) : t.Ensures k g fun _ g' => inv g' :=
  (Program.Meets.of_only h hk hg).mono fun _ _ hi _ _ => hi

end GroupCalendar
