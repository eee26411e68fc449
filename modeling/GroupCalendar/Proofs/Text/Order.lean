import GroupCalendar.Proofs.Text.Utf8
import Mathlib.Data.String.Basic

/-! # The order of octets

Texts are ordered character by character, and their octets in UTF-8 are ordered in the same way: the
first octet of a character says how many there are, more for greater characters, and the bits of the
character follow from the highest to the lowest.
-/

namespace GroupCalendar.Text.Utf8

section Octets

variable {m n : Nat} {c c' : Char} {s t : List UInt8}

theorem ofNat_cons_lt_iff (hm : m < 256) (hn : n < 256) :
    UInt8.ofNat m :: s < UInt8.ofNat n :: t ↔ m < n ∨ m = n ∧ s < t := by
  rw [List.cons_lt_cons_iff, UInt8.lt_iff_toNat_lt, ← UInt8.toNat_inj, toNat_ofNat hm,
    toNat_ofNat hn]

/-- The octets of the lesser character come first, whatever stands behind them. -/
theorem encodeChar_append_lt (h : c < c') : encodeChar c ++ s < encodeChar c' ++ t := by
  have hlt : c.toNat < c'.toNat := h
  have hc := toNat_mem c
  have hc' := toNat_mem c'
  unfold encodeChar
  dsimp only
  generalize c.toNat = n at *
  generalize c'.toNat = n' at *
  -- One case for each pair of lengths; the lesser character is never the longer one.
  split_ifs
  all_goals
    simp only [List.cons_append, List.nil_append]
    repeat rw [ofNat_cons_lt_iff (by omega) (by omega)]
    omega

end Octets

section Texts

variable {cs cs' : List Char}

theorem exists_octet (c : Char) : ∃ b rest, encodeChar c = b :: rest := by
  unfold encodeChar
  dsimp only
  split_ifs <;> exact ⟨_, _, rfl⟩

theorem encodeChars_lt (h : cs < cs') : encodeChars cs < encodeChars cs' := by
  induction cs generalizing cs' with
  | nil =>
    cases cs' with
    | nil => exact absurd h (List.not_lt_nil _)
    | cons c' cs' =>
      obtain ⟨b, rest, hb⟩ := exists_octet c'
      rw [encodeChars, encodeChars, List.flatMap_nil, List.flatMap_cons, hb]
      exact List.nil_lt_cons _ _
  | cons c cs ih =>
    cases cs' with
    | nil => exact absurd h (List.not_lt_nil _)
    | cons c' cs' =>
      rw [encodeChars, encodeChars, List.flatMap_cons, List.flatMap_cons]
      rcases List.cons_lt_cons_iff.mp h with hc | ⟨rfl, hcs⟩
      · exact encodeChar_append_lt hc
      · exact List.append_left_lt (ih hcs)

theorem encodeChars_lt_iff : encodeChars cs < encodeChars cs' ↔ cs < cs' := by
  constructor
  · intro h
    rcases lt_trichotomy cs cs' with hlt | rfl | hgt
    · exact hlt
    · exact absurd h (List.lt_irrefl _)
    · exact absurd h (List.lt_asymm (encodeChars_lt hgt))
  · exact encodeChars_lt

/-- The order of texts is the order of their octets. -/
theorem encode_lt_iff (s t : String) : encode s < encode t ↔ s < t := by
  rw [encode, encode, encodeChars_lt_iff, String.lt_iff_toList_lt]

end Texts

end GroupCalendar.Text.Utf8
