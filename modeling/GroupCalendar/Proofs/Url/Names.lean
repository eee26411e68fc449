import GroupCalendar.Url.Parser

/-! # Plain names

Of a library for names nothing is known but that it has the plain ones in their form. So whatever
address can be read with plain names alone is read alike with any library.
-/

namespace GroupCalendar

/-- The library knows the plain names, whose form the standard for addresses fixes, and others as it
may. -/
def HostNames.KnowsPlain (names : HostNames) : Prop :=
  ∀ name, isPlain name → names.ascii? name = some (name.map Char.toLower)

theorem HostNames.knowsPlain_plain : HostNames.plain.KnowsPlain :=
  fun _ h => if_pos h

namespace Url

section Agreement

variable {α β : Type} {x y : Except UrlError α} {f g : α → Except UrlError β}

/-- What is read in one way is read in the other. -/
def Keeps (x y : Except UrlError α) : Prop :=
  ∀ a, x = .ok a → y = .ok a

theorem Keeps.refl (x : Except UrlError α) : Keeps x x :=
  fun _ h => h

theorem Keeps.bind (hx : Keeps x y) (hf : ∀ a, Keeps (f a) (g a)) :
    Keeps (x >>= f) (y >>= g) := by
  intro b hb
  cases hread : x with
  | error e => rw [hread] at hb; cases hb
  | ok a =>
    rw [hread] at hb
    rw [hx a hread]
    exact hf a b hb

theorem Keeps.ite {p : Prop} [Decidable p] {x' y' : Except UrlError α} (hx : Keeps x y)
    (hx' : Keeps x' y') : Keeps (if p then x else x') (if p then y else y') := by
  split
  · exact hx
  · exact hx'

end Agreement

section Reading

variable {names : HostNames} (hnames : names.KnowsPlain)

include hnames

theorem Host.keeps_parse (cs : List Char) :
    Keeps (@Host.parse .plain cs) (@Host.parse names cs) := by
  unfold Host.parse
  split
  · exact .refl _
  · intro host h
    cases hdecoded : Text.Utf8.decodeChars? (Percent.decode cs) with
    | none => rw [hdecoded] at h; cases h
    | some name =>
      rw [hdecoded] at h
      by_cases hplain : HostNames.isPlain name
      · rw [Option.bind_some, HostNames.knowsPlain_plain name hplain] at h
        rw [Option.bind_some, hnames name hplain]
        exact h
      · rw [Option.bind_some, show HostNames.plain.ascii? name = none from if_neg hplain] at h
        cases h

theorem keeps_readAuthority (scheme cs : List Char) :
    Keeps (@readAuthority .plain scheme cs) (@readAuthority names scheme cs) := by
  unfold readAuthority
  refine .ite nofun (.ite ?_ (.refl _))
  exact .bind (Host.keeps_parse hnames _) fun _ => .refl _

theorem keeps_readSpecial (scheme cs : List Char) :
    Keeps (@readSpecial .plain scheme cs) (@readSpecial names scheme cs) :=
  .bind (keeps_readAuthority hnames _ _) fun _ => .refl _

theorem keeps_readOther (scheme cs : List Char) :
    Keeps (@readOther .plain scheme cs) (@readOther names scheme cs) := by
  unfold readOther
  split
  · exact .bind (keeps_readAuthority hnames _ _) fun _ => .refl _
  · exact .refl _
  · exact .refl _

theorem keeps_readFileHost (cs : List Char) :
    Keeps (@readFileHost .plain cs) (@readFileHost names cs) := by
  unfold readFileHost
  exact .ite (.refl _) (.bind (Host.keeps_parse hnames _) fun _ => .refl _)

theorem keeps_readFile (cs : List Char) :
    Keeps (@readFile .plain cs) (@readFile names cs) := by
  unfold readFile
  split
  · refine .ite (.ite (.refl _) ?_) (.refl _)
    exact .bind (keeps_readFileHost hnames _) fun _ => .refl _
  · exact .refl _

/-- An address that can be read with plain names alone is read alike with others. -/
theorem keeps_parse (s : String) : Keeps (@parse .plain s) (@parse names s) := by
  unfold parse
  dsimp only
  split
  · refine .ite ?_ (.ite ?_ ?_)
    · exact .bind (keeps_readFile hnames _) fun _ => .refl _
    · exact .bind (keeps_readSpecial hnames _ _) fun _ => .refl _
    · exact .bind (keeps_readOther hnames _ _) fun _ => .refl _
  · exact .refl _

end Reading

end Url

end GroupCalendar
