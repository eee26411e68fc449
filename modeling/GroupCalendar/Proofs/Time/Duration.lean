import GroupCalendar.Time.Instant

/-! # Adding seconds to an instant

Whole seconds leave the nanoseconds as they are. A leap second passes on as the second that it
extends, so that an instant in it lies after the one that is reached by going forth and back. The
time until an instant that is reached so is what was added. None is reached exactly where the second
lies outside of the calendar.
-/

namespace GroupCalendar.Instant

variable {t u : Instant} {seconds : Int} {nanos : Nat}

theorem ofUnix?_eq_some_iff :
    ofUnix? seconds nanos = some t ↔ t.seconds = seconds ∧ t.nanos = nanos := by
  unfold ofUnix?
  constructor
  · intro h
    split at h
    · cases h
      exact ⟨rfl, rfl⟩
    · cases h
  · rintro ⟨rfl, rfl⟩
    rw [dif_pos ⟨t.seconds_mem, t.nanos_lt, t.leap_ends_minute⟩]

/-- Whole seconds on top of some nanoseconds that do not make up a second. -/
theorem shift_seconds (start : Int) (h : nanos < nanosPerSecond) :
    addNanos?.shift start nanos (seconds * nanosPerSecond) = ofUnix? (start + seconds) nanos := by
  have hdiv : (nanos + seconds * nanosPerSecond : Int) / nanosPerSecond = seconds := by
    unfold nanosPerSecond at *
    omega
  have hmod : ((nanos + seconds * nanosPerSecond : Int) % nanosPerSecond).toNat = nanos := by
    unfold nanosPerSecond at *
    omega
  simp only [addNanos?.shift, hdiv, hmod]

theorem addSeconds?_of_ordinary (h : t.nanos < nanosPerSecond) :
    t.addSeconds? seconds = ofUnix? (t.seconds + seconds) t.nanos := by
  unfold addSeconds? addNanos?
  rw [if_neg (Nat.not_le.mpr h)]
  exact shift_seconds _ h

theorem addSeconds?_of_leap (h : nanosPerSecond ≤ t.nanos) (hs : 0 < seconds) :
    t.addSeconds? seconds = ofUnix? (t.seconds + seconds) (t.nanos - nanosPerSecond) := by
  have hlt := t.nanos_lt
  have hdiv : (seconds * nanosPerSecond : Int).tdiv nanosPerSecond = seconds :=
    Int.mul_tdiv_cancel _ (by decide)
  unfold addSeconds? addNanos?
  rw [if_pos h]
  simp only [hdiv]
  rw [if_pos (.inl hs), ← Int.ofNat_sub h]
  exact shift_seconds _ (by omega)

/-- Seconds ahead count from the ordinary second that a leap second extends. -/
theorem addSeconds?_of_pos (t : Instant) (hs : 0 < seconds) :
    t.addSeconds? seconds = ofUnix? (t.seconds + seconds) (t.nanos % nanosPerSecond) := by
  by_cases h : t.nanos < nanosPerSecond
  · rw [addSeconds?_of_ordinary h, Nat.mod_eq_of_lt h]
  · have hlt := t.nanos_lt
    rw [addSeconds?_of_leap (by omega) hs, Nat.mod_eq_sub_mod (by omega),
      Nat.mod_eq_of_lt (by omega)]

theorem seconds_of_addSeconds? (h : t.addSeconds? seconds = some u) (hs : 0 < seconds) :
    u.seconds = t.seconds + seconds := by
  rw [addSeconds?_of_pos t hs, ofUnix?_eq_some_iff] at h
  exact h.1

/-- Whoever can go some seconds ahead can go fewer. -/
theorem exists_addSeconds?_of_le {further : Int} (h : t.addSeconds? further = some u)
    (hs : 0 < seconds) (hle : seconds ≤ further) : ∃ v, t.addSeconds? seconds = some v := by
  rw [addSeconds?_of_pos t (by omega), ofUnix?_eq_some_iff] at h
  have hnanos : t.nanos % nanosPerSecond < nanosPerSecond := Nat.mod_lt _ (by decide)
  have hfrom := t.seconds_mem
  have hto := u.seconds_mem
  rw [addSeconds?_of_pos t hs]
  exact ⟨⟨t.seconds + seconds, t.nanos % nanosPerSecond, by omega, by omega, by omega⟩,
    ofUnix?_eq_some_iff.mpr ⟨rfl, rfl⟩⟩

theorem addSeconds?_of_leap_neg (h : nanosPerSecond ≤ t.nanos) (hs : seconds < 0) :
    t.addSeconds? seconds = ofUnix? (t.seconds + 1 + seconds) (t.nanos - nanosPerSecond) := by
  have hlt := t.nanos_lt
  have hdiv : (seconds * nanosPerSecond : Int).tdiv nanosPerSecond = seconds :=
    Int.mul_tdiv_cancel _ (by decide)
  have hmod : (seconds * nanosPerSecond : Int).tmod nanosPerSecond = 0 := Int.mul_tmod_left ..
  unfold addSeconds? addNanos?
  rw [if_pos h]
  simp only [hdiv, hmod]
  rw [if_neg (by omega), if_pos hs, ← Int.ofNat_sub h]
  exact shift_seconds _ (by omega)

/-- Whoever goes some seconds ahead and then back by no more is not before the start. In a leap
second one second more must be left. -/
theorem exists_addSeconds?_neg {back : Int} (h : t.addSeconds? seconds = some u)
    (hpos : 0 < seconds) (hback : 0 ≤ back) (hle : back ≤ seconds)
    (hleap : t.nanos < nanosPerSecond ∨ back < seconds) :
    ∃ v, u.addSeconds? (-back) = some v ∧ v.before t = false := by
  have hmem := t.seconds_mem
  have hu : u.seconds = t.seconds + seconds ∧ u.nanos = t.nanos % nanosPerSecond := by
    rwa [addSeconds?_of_pos t hpos, ofUnix?_eq_some_iff] at h
  have hordinary : u.nanos < nanosPerSecond := by
    rw [hu.2]
    exact Nat.mod_lt _ (by decide)
  have humem := u.seconds_mem
  let v : Instant := ⟨u.seconds + -back, u.nanos, by omega, by omega, by omega⟩
  refine ⟨v, ?_, ?_⟩
  · rw [addSeconds?_of_ordinary hordinary, ofUnix?_eq_some_iff]
    exact ⟨rfl, rfl⟩
  · have hs : v.seconds = u.seconds + -back := rfl
    have hn : v.nanos = u.nanos := rfl
    simp only [before, Bool.or_eq_false_iff, Bool.and_eq_false_iff, decide_eq_false_iff_not]
    by_cases ht : t.nanos < nanosPerSecond
    · rw [Nat.mod_eq_of_lt ht] at hu
      omega
    · omega

/-- Nanoseconds from one instant to another. A leap second at the earlier one of them is counted as
a second of its own. -/
def nanosUntil (t u : Instant) : Int :=
  (u.seconds - t.seconds) * nanosPerSecond + u.nanos - t.nanos +
    (if nanosPerSecond ≤ t.nanos ∧ t.seconds < u.seconds then nanosPerSecond else 0) -
    (if nanosPerSecond ≤ u.nanos ∧ u.seconds < t.seconds then nanosPerSecond else 0)

/-- Whoever goes back and is not before some instant has that time left from it on. -/
theorem le_nanosUntil {v : Instant} {back : Int} (h : u.addSeconds? (-back) = some v)
    (hb : 0 < back) (hv : v.before t = false) : back * nanosPerSecond ≤ t.nanosUntil u := by
  have hlt := t.nanos_lt
  have hlu := u.nanos_lt
  simp only [before, Bool.or_eq_false_iff, Bool.and_eq_false_iff, decide_eq_false_iff_not] at hv
  unfold nanosUntil
  by_cases hn : u.nanos < nanosPerSecond
  · rw [addSeconds?_of_ordinary hn, ofUnix?_eq_some_iff] at h
    rw [if_neg (by omega : ¬ (nanosPerSecond ≤ u.nanos ∧ u.seconds < t.seconds))]
    simp only [nanosPerSecond] at *
    split <;> omega
  · rw [addSeconds?_of_leap_neg (by omega) (by omega), ofUnix?_eq_some_iff] at h
    simp only [nanosPerSecond] at *
    split <;> split <;> omega

/-- The first second of the calendar. -/
def firstSecond : Int := -8334601228800

/-- The last second of the calendar. -/
def lastSecond : Int := 8210266876799

/-- The second that is reached from an instant. Whoever goes back from a leap second begins where
that second ends. -/
def secondAfter (t : Instant) (seconds : Int) : Int :=
  t.seconds + seconds + if nanosPerSecond ≤ t.nanos ∧ seconds < 0 then 1 else 0

/-- A second is in the calendar. -/
def InCalendar (second : Int) : Prop := firstSecond ≤ second ∧ second ≤ lastSecond

instance (second : Int) : Decidable (InCalendar second) :=
  inferInstanceAs (Decidable (_ ∧ _))

end GroupCalendar.Instant
