import GroupCalendar.Json.Skip
import GroupCalendar.Proofs.Json.RoundTrip

/-! # Skipping what can be read

A string that can be read is skipped up to the same place, although its escapes are only looked at.
The digits of a number are skipped if the number ends where they end.
-/

namespace GroupCalendar.Json

open Text.Utf8

section Strings

variable {fuel fuel' n k : Nat} {acc bytes more : List UInt8} {b : UInt8} {c c' : Cursor}

theorem length_of_scanHex (h : scanHex c = .ok (k, c')) : c'.rest.length < c.rest.length := by
  unfold scanHex at h
  split at h
  · next he =>
    dsimp only at h
    split at h
    · cases h
      simp [Cursor.skip, he]
      omega
    · cases h
  · cases h

/-- The escape of a character is one group of digits, or two of them with the mark of an escape
between them. -/
theorem scanHex_of_scanUnicodeEscape {ch : Char} (h : scanUnicodeEscape c = .ok (ch, c')) :
    ∃ k c₁, scanHex c = .ok (k, c₁) ∧ (c' = c₁ ∨ ∃ more m, c₁.rest = 0x5C :: 0x75 :: more ∧
      scanHex (c₁.skip 2) = .ok (m, c')) := by
  unfold scanUnicodeEscape at h
  cases hhex : scanHex c with
  | error e =>
    rw [hhex] at h
    cases h
  | ok found =>
    obtain ⟨k, c₁⟩ := found
    rw [hhex] at h
    refine ⟨k, c₁, rfl, ?_⟩
    change (if _ then _ else _) = _ at h
    split at h
    · cases h
    split at h
    · cases h
      exact .inl rfl
    split at h
    · cases h
    · next rest he =>
      dsimp only at h
      split at h
      · cases h
      · next more =>
        cases hlow : scanHex ((c₁.skip 1).skip 1) with
        | error e =>
          rw [hlow] at h
          cases h
        | ok found =>
          obtain ⟨m, c₂⟩ := found
          rw [hlow] at h
          change (if _ then _ else _) = _ at h
          split at h
          · cases h
          · obtain ⟨-, rfl⟩ := Prod.mk.inj (Except.ok.inj h)
            refine .inr ⟨more, m, he, ?_⟩
            rw [← hlow, Cursor.skip, Cursor.skip, Cursor.skip, List.drop_drop]
      · cases h
    · cases h

theorem skipString_letter {x : UInt8} (hu : b ≠ 0x75) (h : letterEscape? b = some x) :
    skipString (fuel + 1) ⟨0x5C :: b :: more, n⟩ = skipString fuel ⟨more, n + 2⟩ := by
  change (if b = 0x75 then _ else _) = _
  rw [if_neg hu, if_pos (Option.isSome_of_eq_some h)]
  rfl

theorem skipString_unicode (h : scanHex ⟨more, n + 2⟩ = .ok (k, c)) :
    skipString (fuel + 1) ⟨0x5C :: 0x75 :: more, n⟩ = skipString fuel c := by
  change (scanHex ⟨more, n + 2⟩ >>= _) = _
  rw [h]
  rfl

theorem skipString_literal (h : Literal b) :
    skipString (fuel + 1) ⟨b :: more, n⟩ = skipString fuel ⟨more, n + 1⟩ := by
  obtain ⟨hspace, hquote, hslash⟩ := h
  rw [skipString]
  split
  · next he => cases he
  · next he => exact absurd (List.cons.inj he).1 hquote
  · next he => exact absurd (List.cons.inj he).1 hslash
  · next he => exact absurd (List.cons.inj he).1 hslash
  · next he =>
    obtain ⟨rfl, -⟩ := List.cons.inj he
    rw [if_neg (by simpa using hspace)]
    rfl

theorem skipString_escape {ch : Char} {result : Scan Cursor}
    (h : scanUnicodeEscape ⟨more, n + 2⟩ = .ok (ch, c)) (hfuel : more.length + 2 < fuel + 1)
    (hrest : ∀ {fuel}, c.rest.length < fuel → skipString fuel c = result) :
    skipString (fuel + 1) ⟨0x5C :: 0x75 :: more, n⟩ = result := by
  obtain ⟨k, c₁, hhex, rfl | ⟨more', m, htext, hlow⟩⟩ := scanHex_of_scanUnicodeEscape h
  · have hlength := length_of_scanHex hhex
    rw [skipString_unicode hhex]
    refine hrest ?_
    change c.rest.length < more.length at hlength
    omega
  · have hlength := length_of_scanHex hhex
    have hlength' := length_of_scanHex hlow
    obtain ⟨fuel, rfl⟩ : ∃ k, fuel = k + 1 := Nat.exists_eq_add_of_le' (by omega)
    obtain ⟨rest₁, n₁⟩ := c₁
    obtain rfl : rest₁ = _ := htext
    have hlow : scanHex ⟨more', n₁ + 2⟩ = .ok (m, c) := hlow
    rw [skipString_unicode hhex, skipString_unicode hlow]
    refine hrest ?_
    change c.rest.length < more'.length at hlength'
    change more'.length + 2 < more.length at hlength
    omega

/-- Every step of reading is followed, with at most one more for the second half of an escape. -/
theorem skipString_of_scanStringBytes (h : scanStringBytes fuel acc c = .ok (bytes, c'))
    (hfuel : c.rest.length < fuel') : skipString fuel' c = .ok (c'.skip 1) := by
  induction fuel generalizing acc c fuel' with
  | zero => cases h
  | succ fuel ih =>
    obtain ⟨rest, n⟩ := c
    obtain ⟨fuel', rfl⟩ : ∃ k, fuel' = k + 1 := Nat.exists_eq_add_of_le' (Nat.zero_lt_of_lt hfuel)
    rw [scanStringBytes] at h
    split at h
    · cases h
    · next he =>
      obtain rfl : rest = _ := he
      cases h
      rfl
    · cases h
    · next b more he =>
      obtain rfl : rest = _ := he
      split at h
      · next hu =>
        subst hu
        cases hescape : scanUnicodeEscape (Cursor.skip ⟨0x5C :: 0x75 :: more, n⟩ 2) with
        | error e =>
          rw [hescape] at h
          cases h
        | ok found =>
          rw [hescape] at h
          exact skipString_escape hescape hfuel fun hfuel => ih h hfuel
      · next hu =>
        split at h
        · next x hx =>
          rw [skipString_letter hu hx]
          change more.length + 2 < fuel' + 1 at hfuel
          exact ih h (Nat.lt_of_succ_lt (Nat.lt_of_succ_lt_succ hfuel))
        · cases h
    · next b more hquote hlast hescape he =>
      obtain rfl : rest = _ := he
      split at h
      · cases h
      · next hspace =>
        have hslash : b ≠ 0x5C := by
          intro hb
          cases more with
          | nil => exact hlast hb rfl
          | cons b' more => exact hescape b' more hb rfl
        rw [skipString_literal ⟨UInt8.not_lt.mp hspace, hquote, hslash⟩]
        exact ih h (Nat.lt_of_succ_lt_succ hfuel)

/-- What is read as a string is skipped as one. -/
theorem skipQuoted_of_scanString {s : String} (h : scanString c = .ok (s, c')) :
    skipQuoted c = .ok c' := by
  unfold scanString at h
  cases hbytes : scanStringBytes (c.rest.length + 1) [] c with
  | error e =>
    rw [hbytes] at h
    cases h
  | ok found =>
    obtain ⟨bytes, c₁⟩ := found
    rw [hbytes] at h
    dsimp only [bind, Except.bind] at h
    split at h
    · cases h
      exact skipString_of_scanStringBytes hbytes (Nat.lt_succ_self _)
    · cases h

end Strings

section Numbers

variable {k n : Nat} {rest : List UInt8} {cs : List Char}

theorem skipDigits_digits (hcs : ∀ c ∈ cs, c.isDigit = true) (hrest : Closes rest) (n : Nat) :
    (skipDigits ⟨encodeChars cs ++ rest, n⟩).2 = ⟨rest, n + (encodeChars cs).length⟩ := by
  have htake : (encodeChars cs ++ rest).takeWhile (fun b => (octetDigit? b).isSome) =
      encodeChars cs := by
    have hnone : rest.takeWhile (fun b => (octetDigit? b).isSome) = [] := by
      cases rest with
      | nil => rfl
      | cons b rest =>
        have hb : octetDigit? b = none := hrest.noDigit
        exact List.takeWhile_cons_of_neg (by simp [hb])
    rw [List.takeWhile_append_of_pos, hnone, List.append_nil]
    · intro b hb
      obtain ⟨c, hc, hb⟩ := List.mem_flatMap.mp hb
      obtain ⟨hdigit, hascii⟩ := octetDigit?_ofNat (hcs c hc)
      rw [encodeChar_ascii hascii, List.mem_singleton] at hb
      rw [hb, hdigit]
      rfl
  unfold skipDigits
  dsimp only
  rw [htake, Cursor.skip, List.drop_left]

theorem skipNumber_zero (hrest : Closes rest) (n : Nat) :
    skipNumber ⟨0x30 :: rest, n⟩ = .ok ⟨rest, n + 1⟩ := by
  cases rest with
  | nil => rfl
  | cons b rest => rcases hrest b rfl with rfl | rfl | rfl <;> rfl

theorem skipNumber_pos {c : Cursor} (hdigit : atDigit c = true) (hzero : c.rest.head? ≠ some 0x30)
    (hskip : (skipDigits c).2 = ⟨rest, n⟩) (hrest : Closes rest) :
    skipNumber c = .ok ⟨rest, n⟩ := by
  unfold skipNumber
  simp only [hdigit, hzero, hskip, Bool.not_true, Bool.false_eq_true, if_false, decide_false,
    Bool.false_and]
  cases rest with
  | nil => rfl
  | cons b rest => rcases hrest b rfl with rfl | rfl | rfl <;> rfl

/-- An integer is skipped if it ends where its digits end. -/
theorem exists_skipNumber (k : Nat) (hrest : Closes rest) (n : Nat) :
    ∃ n', skipNumber ⟨encodeChars (Nat.toDigits 10 k) ++ rest, n⟩ = .ok ⟨rest, n'⟩ := by
  rcases Nat.eq_zero_or_pos k with rfl | hpos
  · exact ⟨n + 1, skipNumber_zero hrest n⟩
  · have hall : ∀ c ∈ Nat.toDigits 10 k, c.isDigit = true := fun c hc =>
      Nat.isDigit_of_mem_toDigits (by decide) (Nat.le_refl 10) hc
    have hskip := skipDigits_digits hall hrest n
    obtain ⟨c, cs, hdigits, hc, hzero⟩ := exists_toDigits_pos hpos
    obtain ⟨d, hdigit⟩ := octetDigit?_of_ne_zero hc hzero
    refine ⟨_, skipNumber_pos ?_ ?_ hskip hrest⟩
    all_goals rw [hdigits, encodeChars_cons, encodeChar_ascii (octetDigit?_ofNat hc).2]
    · exact Option.isSome_of_eq_some hdigit
    · intro he
      rw [Option.some.inj he] at hdigit
      cases hdigit

end Numbers

section Values

variable {n : Nat} {rest : List UInt8}

/-- A value is skipped, whatever closes the part around it. -/
def Skips (x : Json) : Prop :=
  ∀ rest, Closes rest → ∀ n, ∃ n', skipAny ⟨x.encode ++ rest, n⟩ = .ok ⟨rest, n'⟩

theorem skips_string (s : String) : Skips (.string s) := by
  intro rest _ n
  obtain ⟨n', hscan⟩ := scans_string s rest (n + 1)
  rw [encode_string]
  exact ⟨n', skipQuoted_of_scanString hscan⟩

theorem skipAny_digit {b : UInt8} {v : Nat} (h : octetDigit? b = some v) :
    skipAny ⟨b :: rest, n⟩ = skipNumber ⟨b :: rest, n⟩ := by
  rw [skipAny, skipValue, skipSpace_cons (isSpace_of_digit h)]
  dsimp only
  rw [if_neg (ne_of_digit h rfl), if_neg (ne_of_digit h rfl), if_neg (ne_of_digit h rfl),
    if_neg (ne_of_digit h rfl), if_pos (Option.isSome_of_eq_some h)]

theorem skips_integer {k : Int} (hk : 0 ≤ k) : Skips (.integer k) := by
  intro rest hrest n
  obtain ⟨n', hskip⟩ := exists_skipNumber k.natAbs hrest n
  obtain ⟨b, text, v, htext, hdigit⟩ := exists_encodeChars_toDigits k.natAbs
  rw [encode_integer_of_nonneg hk]
  rw [htext] at hskip ⊢
  exact ⟨n', (skipAny_digit hdigit).trans hskip⟩

end Values

end GroupCalendar.Json
