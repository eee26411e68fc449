import GroupCalendar.Number.Numeral
import Mathlib.Data.Nat.Init
import Mathlib.Tactic.IntervalCases

/-! # Reading back numerals

The digits of a number are read back as that number, and an integer with its sign is read back by
every range that it lies in.
-/

namespace GroupCalendar

theorem digit?_digitChar {d : Nat} (h : d < 10) : digit? (Nat.digitChar d) = some d := by
  interval_cases d <;> rfl

namespace IntegerRange

variable {r : IntegerRange} {positive : Bool}

/-- The number with the sign that its digits are read for. -/
def signed (positive : Bool) (n : Nat) : Int :=
  if positive then n else -n

theorem contains_iff {n : Int} : r.contains n = true ↔ r.low ≤ n ∧ n ≤ r.high := by
  rw [contains, Bool.and_eq_true, decide_eq_true_eq, decide_eq_true_eq]

theorem readDigits_cons {c : Char} {d value : Nat} (hd : digit? c = some d) (cs : List Char) :
    r.readDigits positive (signed positive value) (c :: cs) =
      if r.contains (signed positive (value * 10 + d)) then
        r.readDigits positive (signed positive (value * 10 + d)) cs
      else .error (if positive then .tooLarge else .tooSmall) := by
  have hnext : (if positive then signed positive value * 10 + d
      else signed positive value * 10 - d) = signed positive (value * 10 + d) := by
    cases positive <;> simp only [signed, if_true, Bool.false_eq_true, if_false] <;> omega
  simp only [readDigits, hd, hnext]

/-- One more digit is read behind those read so far. -/
theorem readDigits_append {c : Char} {cs : List Char} {d value : Nat} (hd : digit? c = some d)
    (hmem : r.contains (signed positive (value * 10 + d))) {start : Nat}
    (h : r.readDigits positive (signed positive start) cs = .ok (signed positive value)) :
    r.readDigits positive (signed positive start) (cs ++ [c]) =
      .ok (signed positive (value * 10 + d)) := by
  induction cs generalizing start with
  | nil =>
    rw [readDigits, Except.ok.injEq] at h
    rw [List.nil_append, h, readDigits_cons hd, if_pos hmem]
    rfl
  | cons c' cs ih =>
    cases hc : digit? c' with
    | none =>
      rw [readDigits, hc] at h
      cases h
    | some d' =>
      rw [readDigits_cons hc] at h
      rw [List.cons_append, readDigits_cons hc]
      split at h
      · next hin =>
        rw [if_pos hin]
        exact ih h
      · cases h

/-- The digits of a number are read back. -/
theorem readDigits_toDigits (positive : Bool) (hzero : r.contains 0) {n : Nat}
    (h : r.contains (signed positive n)) :
    r.readDigits positive 0 (Nat.toDigits 10 n) = .ok (signed positive n) := by
  have hstart : signed positive 0 = 0 := by cases positive <;> rfl
  rw [← hstart]
  induction n using Nat.strong_induction_on with
  | h n ih =>
    rcases Nat.lt_or_ge n 10 with hn | hn
    · have hvalue : 0 * 10 + n = n := by omega
      rw [Nat.toDigits_of_lt_base hn, readDigits_cons (digit?_digitChar hn), hvalue, if_pos h]
      rfl
    · have hvalue : n / 10 * 10 + n % 10 = n := Nat.div_add_mod' n 10
      have hmem : r.contains (signed positive (n / 10)) := by
        rw [contains_iff] at h hzero ⊢
        cases positive <;> simp only [signed, if_true, Bool.false_eq_true, if_false] at h ⊢ <;>
          omega
      have hlast := readDigits_append (digit?_digitChar (Nat.mod_lt n (show 10 > 0 by decide)))
        (by rwa [hvalue]) (ih (n / 10) (by omega) hmem)
      rwa [hvalue, ← Nat.toDigits_of_base_le (by decide) hn] at hlast

theorem exists_toDigits (n : Nat) :
    ∃ c rest, Nat.toDigits 10 n = c :: rest ∧ c.isDigit = true := by
  cases hdigits : Nat.toDigits 10 n with
  | nil =>
    have hlength := (Nat.length_toDigits_le_iff (b := 10) (n := n) (by decide) Nat.one_pos).mp
      (by rw [hdigits]; decide)
    rw [Nat.toDigits_of_lt_base hlength] at hdigits
    cases hdigits
  | cons c rest =>
    have hmem : c ∈ Nat.toDigits 10 n := by
      rw [hdigits]
      exact List.mem_cons_self
    exact ⟨c, rest, rfl, Nat.isDigit_of_mem_toDigits (by decide) (Nat.le_refl 10) hmem⟩

/-- An integer is read back by a range that it lies in. -/
theorem read_toString (hzero : r.contains 0) {n : Int} (h : r.contains n) :
    r.read (toString n).toList = .ok n := by
  cases n with
  | ofNat n =>
    have hread := readDigits_toDigits true hzero h
    have htext : (toString (Int.ofNat n)).toList = Nat.toDigits 10 n := String.toList_ofList
    obtain ⟨c, rest, hdigits, hc⟩ := exists_toDigits n
    have hplus : c ≠ '+' := by
      rintro rfl
      cases hc
    have hminus : c ≠ '-' := by
      rintro rfl
      cases hc
    rw [htext]
    rw [hdigits] at hread ⊢
    rw [read]
    · exact hread
    all_goals simp [hplus, hminus]
  | negSucc n =>
    have hread := readDigits_toDigits false (n := n + 1) hzero h
    have htext : (toString (Int.negSucc n)).toList = '-' :: Nat.toDigits 10 (n + 1) := by
      change ("-" ++ String.ofList (Nat.toDigits 10 (n + 1))).toList = _
      rw [String.toList_append, String.toList_ofList (l := Nat.toDigits 10 (n + 1))]
      rfl
    have hlow : r.low < 0 := by
      have := (contains_iff.mp h).1
      omega
    obtain ⟨c, rest, hdigits, -⟩ := exists_toDigits (n + 1)
    rw [htext]
    rw [hdigits] at hread ⊢
    rw [read, if_pos hlow]
    · exact hread
    · exact nofun

theorem contains_of_readDigits {start n : Int} {cs : List Char} (hstart : r.contains start)
    (h : r.readDigits positive start cs = .ok n) : r.contains n := by
  induction cs generalizing start with
  | nil =>
    cases h
    exact hstart
  | cons c cs ih =>
    rw [readDigits] at h
    split at h
    · cases h
    · next d hd =>
      generalize (if positive then start * 10 + (d : Int) else start * 10 - d) = next at h
      dsimp only at h
      by_cases hmem : r.contains next = true
      · rw [if_pos hmem] at h
        exact ih hmem h
      · rw [if_neg hmem] at h
        cases h

/-- What a range reads lies in it. -/
theorem contains_of_read (hzero : r.contains 0) {text : List Char} {n : Int}
    (h : r.read text = .ok n) : r.contains n := by
  unfold read at h
  split at h
  case h_5 =>
    split at h
    · exact contains_of_readDigits hzero h
    · cases h
  case h_4 => exact contains_of_readDigits hzero h
  case h_6 => exact contains_of_readDigits hzero h
  all_goals cases h

end IntegerRange

end GroupCalendar
