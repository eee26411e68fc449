import GroupCalendar.Json.Parser
import GroupCalendar.Json.Printer
import GroupCalendar.Proofs.Number.Numeral
import GroupCalendar.Proofs.Text.Utf8

/-! # Reading back strings and integers

A scanner reads the octets of a string or an integer as that value and stops behind them. The
characters of a string are read one by one, each from its escape or from its own octets.
-/

namespace GroupCalendar.Json

open Text.Utf8

/-- From any offset a scanner reads the octets as a value and stops behind them, before a rest. -/
def Scans {α : Type} (scan : Cursor → Scan (α × Cursor)) (text : List UInt8) (a : α)
    (rest : List UInt8) : Prop :=
  ∀ n, ∃ n', scan ⟨text ++ rest, n⟩ = .ok (a, ⟨rest, n'⟩)

section Strings

variable {fuel n : Nat} {acc more : List UInt8} {b : UInt8}

/-- An octet that stands for itself in a string. -/
def Literal (b : UInt8) : Prop := 0x20 ≤ b ∧ b ≠ 0x22 ∧ b ≠ 0x5C

theorem scanStringBytes_literal (h : Literal b) :
    scanStringBytes (fuel + 1) acc ⟨b :: more, n⟩ =
      scanStringBytes fuel (b :: acc) ⟨more, n + 1⟩ := by
  obtain ⟨hspace, hquote, hslash⟩ := h
  rw [scanStringBytes]
  split
  · next he => cases he
  · next he => exact absurd (List.cons.inj he).1 hquote
  · next he => exact absurd (List.cons.inj he).1 hslash
  · next he => exact absurd (List.cons.inj he).1 hslash
  · next he =>
    obtain ⟨rfl, -⟩ := List.cons.inj he
    rw [if_neg (by simpa using hspace)]
    rfl

theorem scanStringBytes_literals {bs : List UInt8} (h : ∀ b ∈ bs, Literal b) :
    scanStringBytes (fuel + bs.length) acc ⟨bs ++ more, n⟩ =
      scanStringBytes fuel (bs.reverse ++ acc) ⟨more, n + bs.length⟩ := by
  induction bs generalizing acc n with
  | nil => rfl
  | cons b bs ih =>
    obtain ⟨hb, hbs⟩ := List.forall_mem_cons.mp h
    rw [List.length_cons, ← Nat.add_assoc, List.cons_append, scanStringBytes_literal hb, ih hbs,
      List.reverse_cons, List.append_assoc, Nat.add_right_comm, Nat.add_assoc]
    rfl

/-- An escape of one letter stands for an octet. -/
theorem scanStringBytes_letter {x : UInt8} (hu : b ≠ 0x75) (h : letterEscape? b = some x) :
    scanStringBytes (fuel + 1) acc ⟨0x5C :: b :: more, n⟩ =
      scanStringBytes fuel (x :: acc) ⟨more, n + 2⟩ := by
  change (if b = 0x75 then _ else _) = _
  rw [if_neg hu, h]
  rfl

theorem scanStringBytes_unicode {c : Char} {cursor : Cursor}
    (h : scanUnicodeEscape ⟨more, n + 2⟩ = .ok (c, cursor)) :
    scanStringBytes (fuel + 1) acc ⟨0x5C :: 0x75 :: more, n⟩ =
      scanStringBytes fuel ((encodeChar c).reverse ++ acc) cursor := by
  change (scanUnicodeEscape ⟨more, n + 2⟩ >>= _) = _
  rw [h]
  rfl

theorem hexDigit?_hexDigit : ∀ k < 16, hexDigit? (hexDigit k) = some k ∧
    (hexDigit k).toNat < 0x80 := by decide

theorem ofNat_octet {c : Char} (h : c.toNat < 0x80) :
    Char.ofNat (UInt8.ofNat c.toNat).toNat = c := by
  rw [toNat_ofNat (by omega), Char.ofNat_toNat]

/-- The digits of a control character are those of its number. -/
theorem scanHex_control {k : Nat} (hk : k < 0x20) :
    scanHex ⟨0x30 :: 0x30 :: .ofNat (hexDigit (k / 16)).toNat ::
      .ofNat (hexDigit (k % 16)).toNat :: more, n⟩ = .ok (k, ⟨more, n + 4⟩) := by
  obtain ⟨hhigh, hhigh'⟩ := hexDigit?_hexDigit (k / 16) (by omega)
  obtain ⟨hlow, hlow'⟩ := hexDigit?_hexDigit (k % 16) (by omega)
  have hzero : hexDigit? (Char.ofNat (0x30 : UInt8).toNat) = some 0 := by decide
  have hnumber : (((0 * 16 + 0) * 16 + 0) * 16 + k / 16) * 16 + k % 16 = k := by omega
  simp only [scanHex, List.mapM_cons, List.mapM_nil, hzero, ofNat_octet hhigh', hhigh,
    ofNat_octet hlow', hlow, Option.pure_def, Option.bind_eq_bind, Option.bind_some,
    List.foldl_cons, List.foldl_nil, hnumber]
  rfl

/-- The escape of a control character. -/
theorem scanStringBytes_control {c : Char} (hc : c.toNat < 0x20) :
    scanStringBytes (fuel + 1) acc ⟨encodeChars ['\\', 'u', '0', '0', hexDigit (c.toNat / 16),
        hexDigit (c.toNat % 16)] ++ more, n⟩ =
      scanStringBytes fuel ((encodeChar c).reverse ++ acc) ⟨more, n + 6⟩ := by
  have hhigh := (hexDigit?_hexDigit (c.toNat / 16) (by omega)).2
  have hlow := (hexDigit?_hexDigit (c.toNat % 16) (by omega)).2
  have htext : encodeChars ['\\', 'u', '0', '0', hexDigit (c.toNat / 16), hexDigit (c.toNat % 16)] =
      [0x5C, 0x75, 0x30, 0x30, .ofNat (hexDigit (c.toNat / 16)).toNat,
        .ofNat (hexDigit (c.toNat % 16)).toNat] := by
    refine encodeChars_ascii fun d hd => ?_
    simp only [List.mem_cons, List.not_mem_nil, or_false] at hd
    rcases hd with rfl | rfl | rfl | rfl | rfl | rfl
    any_goals decide
    · exact hhigh
    · exact hlow
  have hescape : scanUnicodeEscape ⟨0x30 :: 0x30 :: .ofNat (hexDigit (c.toNat / 16)).toNat ::
      .ofNat (hexDigit (c.toNat % 16)).toNat :: more, n + 2⟩ = .ok (c, ⟨more, n + 6⟩) := by
    rw [scanUnicodeEscape, scanHex_control hc]
    change (if 0xDC00 ≤ c.toNat ∧ c.toNat ≤ 0xDFFF then _
      else if c.toNat < 0xD800 ∨ 0xDBFF < c.toNat then _ else _) = _
    rw [if_neg (by omega), if_pos (by omega), Char.ofNat_toNat]
  rw [htext]
  exact scanStringBytes_unicode hescape

theorem literal_ofNat {k : Nat} (hk : 0x80 ≤ k) (hk' : k < 0x100) : Literal (.ofNat k) := by
  have hnat := toNat_ofNat hk'
  refine ⟨UInt8.le_iff_toNat_le.mpr ?_, fun he => ?_, fun he => ?_⟩
  · rw [hnat]
    exact Nat.le_trans (by decide) hk
  all_goals
    rw [he] at hnat
    have hsmall : k < 0x80 := hnat ▸ (by decide)
    omega

/-- The octets of a character that needs no escape stand for themselves. -/
theorem literal_of_mem_encodeChar {c : Char} (hspace : 0x20 ≤ c.toNat) (hquote : c ≠ '"')
    (hslash : c ≠ '\\') (hb : b ∈ encodeChar c) : Literal b := by
  by_cases hc : c.toNat < 0x80
  · rw [encodeChar_ascii hc, List.mem_singleton] at hb
    subst hb
    refine ⟨UInt8.le_iff_toNat_le.mpr ?_, ofNat_ne hc (by decide) hquote,
      ofNat_ne hc (by decide) hslash⟩
    rw [toNat_ofNat (by omega)]
    exact hspace
  · have hmem := toNat_mem c
    rw [encodeChar, if_neg hc] at hb
    split at hb
    · simp only [List.mem_cons, List.not_mem_nil, or_false] at hb
      rcases hb with rfl | rfl <;> exact literal_ofNat (by omega) (by omega)
    split at hb
    · simp only [List.mem_cons, List.not_mem_nil, or_false] at hb
      rcases hb with rfl | rfl | rfl <;> exact literal_ofNat (by omega) (by omega)
    · simp only [List.mem_cons, List.not_mem_nil, or_false] at hb
      rcases hb with rfl | rfl | rfl | rfl <;> exact literal_ofNat (by omega) (by omega)

/-- The characters that are escaped by a letter, with the letter. -/
def letters : List (Char × Char) :=
  [('"', '"'), ('\\', '\\'), ('\x08', 'b'), ('\x0c', 'f'), ('\n', 'n'), ('\r', 'r'), ('\t', 't')]

/-- A character is escaped by a letter or by its number, or it stands for itself. -/
theorem escapeChar_cases (c : Char) :
    (∃ letter, (c, letter) ∈ letters ∧ escapeChar c = ['\\', letter]) ∨
    (c.toNat < 0x20 ∧ escapeChar c =
      ['\\', 'u', '0', '0', hexDigit (c.toNat / 16), hexDigit (c.toNat % 16)]) ∨
    (0x20 ≤ c.toNat ∧ c ≠ '"' ∧ c ≠ '\\' ∧ escapeChar c = [c]) := by
  unfold escapeChar
  split
  · next h => exact .inl ⟨'"', by simp [letters, h], rfl⟩
  next hquote =>
  split
  · next h => exact .inl ⟨'\\', by simp [letters, h], rfl⟩
  next hslash =>
  split
  · next h => exact .inl ⟨'b', by simp [letters, h], rfl⟩
  split
  · next h => exact .inl ⟨'f', by simp [letters, h], rfl⟩
  split
  · next h => exact .inl ⟨'n', by simp [letters, h], rfl⟩
  split
  · next h => exact .inl ⟨'r', by simp [letters, h], rfl⟩
  split
  · next h => exact .inl ⟨'t', by simp [letters, h], rfl⟩
  split
  · next h => exact .inr (.inl ⟨h, rfl⟩)
  · next h => exact .inr (.inr ⟨Nat.le_of_not_lt h, hquote, hslash, rfl⟩)

theorem letterEscape?_of_mem : ∀ p ∈ letters,
    encodeChars ['\\', p.2] = [0x5C, .ofNat p.2.toNat] ∧ UInt8.ofNat p.2.toNat ≠ 0x75 ∧
      ∃ x, encodeChar p.1 = [x] ∧ letterEscape? (.ofNat p.2.toNat) = some x := by
  simp only [letters, List.forall_mem_cons, List.not_mem_nil, false_implies, implies_true, and_true]
  refine ⟨?_, ?_, ?_, ?_, ?_, ?_, ?_⟩
  all_goals exact ⟨rfl, by decide, _, rfl, rfl⟩

/-- A character is read from its escape, or from its own octets. -/
theorem scanStringBytes_escapeChar (c : Char)
    (hfuel : (encodeChars (escapeChar c)).length + more.length < fuel) :
    ∃ fuel' n', more.length < fuel' ∧
      scanStringBytes fuel acc ⟨encodeChars (escapeChar c) ++ more, n⟩ =
        scanStringBytes fuel' ((encodeChar c).reverse ++ acc) ⟨more, n'⟩ := by
  obtain ⟨letter, hmem, hescape⟩ | ⟨hspace, hescape⟩ | ⟨hspace, hquote, hslash, hescape⟩ :=
    escapeChar_cases c
  · obtain ⟨htext, hu, x, hx, hletter⟩ := letterEscape?_of_mem _ hmem
    rw [hescape, htext] at hfuel ⊢
    obtain ⟨fuel, rfl⟩ := Nat.exists_eq_add_of_le' (Nat.zero_lt_of_lt hfuel)
    refine ⟨fuel, _, ?_, (scanStringBytes_letter hu hletter).trans (by rw [hx]; rfl)⟩
    simp only [List.length_cons, List.length_nil] at hfuel
    omega
  · rw [hescape] at hfuel ⊢
    obtain ⟨fuel, rfl⟩ := Nat.exists_eq_add_of_le' (Nat.zero_lt_of_lt hfuel)
    refine ⟨fuel, _, ?_, scanStringBytes_control hspace⟩
    rw [encodeChars_cons, encodeChar_ascii (by decide), List.length_append,
      List.length_singleton] at hfuel
    omega
  · rw [hescape, encodeChars, List.flatMap_singleton] at hfuel ⊢
    obtain ⟨extra, rfl⟩ := Nat.exists_eq_add_of_le hfuel.le
    rw [Nat.add_assoc, Nat.add_comm] at hfuel ⊢
    exact ⟨_, _, by omega, scanStringBytes_literals fun b hb =>
      literal_of_mem_encodeChar hspace hquote hslash hb⟩

/-- Characters are read one by one up to the closing quote. -/
theorem scanStringBytes_escaped (cs : List Char)
    (hfuel : (encodeChars (cs.flatMap escapeChar)).length + (more.length + 1) < fuel) :
    ∃ n', scanStringBytes fuel acc ⟨encodeChars (cs.flatMap escapeChar) ++ 0x22 :: more, n⟩ =
      .ok ((encodeChars cs).reverse ++ acc, ⟨0x22 :: more, n'⟩) := by
  induction cs generalizing fuel acc n with
  | nil =>
    obtain ⟨fuel, rfl⟩ := Nat.exists_eq_add_of_le' (Nat.zero_lt_of_lt hfuel)
    exact ⟨n, rfl⟩
  | cons c cs ih =>
    rw [List.flatMap_cons, encodeChars_append, List.length_append, Nat.add_assoc] at hfuel
    rw [← List.length_cons, ← List.length_append] at hfuel
    obtain ⟨fuel', n', hfuel', hstep⟩ := scanStringBytes_escapeChar c hfuel
    rw [List.length_append, List.length_cons] at hfuel'
    obtain ⟨n'', hrest⟩ := ih hfuel'
    refine ⟨n'', ?_⟩
    rw [List.flatMap_cons, encodeChars_append, List.append_assoc, hstep, hrest, encodeChars_cons,
      List.reverse_append, List.append_assoc]

/-- A string is read back, from behind its opening quote. -/
theorem scans_string (s : String) (rest : List UInt8) :
    Scans scanString (encodeChars (s.toList.flatMap escapeChar) ++ [0x22]) s rest := by
  intro n
  have hfuel : (encodeChars (s.toList.flatMap escapeChar)).length + (rest.length + 1) <
      (encodeChars (s.toList.flatMap escapeChar) ++ 0x22 :: rest).length + 1 := by
    rw [List.length_append, List.length_cons]
    omega
  obtain ⟨n', hscan⟩ := @scanStringBytes_escaped _ n [] rest s.toList hfuel
  refine ⟨n' + 1, ?_⟩
  have hdecode : decode? ((encodeChars s.toList).reverse ++ []).reverse = some s := by
    rw [List.append_nil, List.reverse_reverse]
    exact decode?_encode s
  rw [List.append_assoc, List.singleton_append, scanString]
  dsimp only
  rw [hscan]
  dsimp only [bind, Except.bind]
  rw [hdecode]
  rfl

end Strings

section Integers

variable {k n count : Nat} {rest : List UInt8} {c : Char}

/-- What may stand behind a value: nothing, a comma or a closing bracket. -/
def Closes (rest : List UInt8) : Prop :=
  ∀ b ∈ rest.head?, b = 0x2C ∨ b = 0x5D ∨ b = 0x7D

theorem Closes.noDigit (h : Closes rest) : rest.head?.bind octetDigit? = none := by
  rw [Option.bind_eq_none_iff]
  intro b hb
  rcases h b hb with rfl | rfl | rfl <;> rfl

theorem octetDigit?_ofNat (h : c.isDigit = true) :
    octetDigit? (.ofNat c.toNat) = some (c.toNat - '0'.toNat) ∧ c.toNat < 0x80 := by
  simp only [Char.isDigit, Bool.and_eq_true, decide_eq_true_eq, UInt32.le_iff_toNat_le] at h
  obtain ⟨hlow, hhigh⟩ := h
  have hlow : 48 ≤ c.toNat := hlow
  have hhigh : c.toNat ≤ 57 := hhigh
  have hnat : (UInt8.ofNat c.toNat).toNat = c.toNat := toNat_ofNat (by omega)
  refine ⟨?_, by omega⟩
  have hmem : 0x30 ≤ UInt8.ofNat c.toNat ∧ UInt8.ofNat c.toNat ≤ 0x39 := by
    rw [UInt8.le_iff_toNat_le, UInt8.le_iff_toNat_le, hnat]
    exact ⟨hlow, hhigh⟩
  rw [octetDigit?, if_pos hmem, hnat]
  rfl

theorem le_ofDigitChars (cs : List Char) (n : Nat) : n ≤ Nat.ofDigitChars 10 cs n := by
  induction cs generalizing n with
  | nil => exact Nat.le_refl n
  | cons c cs ih => exact Nat.le_trans (by omega) (ih (10 * n + (c.toNat - '0'.toNat)))

/-- Digits are taken up to the first octet that is none, while the number stays below `2^64`. -/
theorem takeSignificand_digits {cs : List Char} (hcs : ∀ c ∈ cs, c.isDigit = true)
    (hlt : Nat.ofDigitChars 10 cs n < 18446744073709551616)
    (hrest : rest.head?.bind octetDigit? = none) :
    takeSignificand n count (encodeChars cs ++ rest) =
      (Nat.ofDigitChars 10 cs n, count + (encodeChars cs).length, false) := by
  induction cs generalizing n count with
  | nil =>
    cases rest with
    | nil => rfl
    | cons b rest =>
      have hb : octetDigit? b = none := hrest
      change takeSignificand n count (b :: rest) = _
      rw [takeSignificand, hb]
      rfl
  | cons c cs ih =>
    obtain ⟨hc, hcs⟩ := List.forall_mem_cons.mp hcs
    obtain ⟨hdigit, hascii⟩ := octetDigit?_ofNat hc
    have hlt : Nat.ofDigitChars 10 cs (10 * n + (c.toNat - '0'.toNat)) < 18446744073709551616 := hlt
    have hle := le_ofDigitChars cs (10 * n + (c.toNat - '0'.toNat))
    rw [encodeChars_cons, encodeChar_ascii hascii, List.singleton_append, List.cons_append,
      takeSignificand, hdigit]
    dsimp only
    rw [Nat.mul_comm n 10, if_pos (by omega), ih hcs hlt, List.length_cons, Nat.add_assoc,
      Nat.add_comm 1]
    rfl

theorem octetDigit?_of_ne_zero (h : c.isDigit = true) (hc : c ≠ '0') :
    ∃ d, octetDigit? (.ofNat c.toNat) = some (d + 1) := by
  have hne : c.toNat ≠ '0'.toNat := fun he => hc (Char.toNat_inj.mp he)
  have hle : '0'.toNat ≤ c.toNat := by
    simp only [Char.isDigit, Bool.and_eq_true, decide_eq_true_eq] at h
    exact UInt32.le_iff_toNat_le.mp h.1
  obtain ⟨d, hd⟩ := Nat.exists_eq_add_of_le' (Nat.sub_pos_of_lt (Nat.lt_of_le_of_ne hle hne.symm))
  exact ⟨d, by rw [(octetDigit?_ofNat h).1, hd]⟩

/-- Only zero is written with a zero in front. -/
theorem exists_toDigits_pos (hk : 0 < k) :
    ∃ c cs, Nat.toDigits 10 k = c :: cs ∧ c.isDigit = true ∧ c ≠ '0' := by
  induction k using Nat.strong_induction_on with
  | h k ih =>
    rcases Nat.lt_or_ge k 10 with hlt | hge
    · refine ⟨Nat.digitChar k, [], Nat.toDigits_of_lt_base hlt, ?_⟩
      interval_cases k <;> decide
    · obtain ⟨c, cs, hdigits, hc⟩ := ih (k / 10) (by omega) (by omega)
      refine ⟨c, cs ++ [Nat.digitChar (k % 10)], ?_, hc⟩
      rw [Nat.toDigits_of_base_le (by decide) hge, hdigits]
      rfl

/-- A zero stands alone. -/
theorem scanNumber_zero (positive : Bool) (hrest : Closes rest) (n : Nat) :
    scanNumber positive ⟨0x30 :: rest, n⟩ = scanNumberEnd positive 0 ⟨rest, n + 1⟩ := by
  have hzero : octetDigit? 0x30 = some 0 := rfl
  have hnone : (Cursor.skip ⟨0x30 :: rest, n⟩ 1).rest.head?.bind octetDigit? = none :=
    hrest.noDigit
  rw [scanNumber]
  dsimp only
  simp only [hzero, hnone]
  rfl

/-- All digits of a number are taken, and nothing behind them. -/
theorem takeSignificand_toDigits (hk : k < 18446744073709551616) (hrest : Closes rest) :
    takeSignificand 0 0 (encodeChars (Nat.toDigits 10 k) ++ rest) =
      (k, (encodeChars (Nat.toDigits 10 k)).length, false) := by
  have hall : ∀ c ∈ Nat.toDigits 10 k, c.isDigit = true := fun c hc =>
    Nat.isDigit_of_mem_toDigits (by decide) (Nat.le_refl 10) hc
  have hvalue : Nat.ofDigitChars 10 (Nat.toDigits 10 k) 0 = k :=
    Nat.ofDigitChars_toDigits (by decide) (Nat.le_refl 10)
  rw [takeSignificand_digits hall (by rwa [hvalue]) hrest.noDigit, hvalue, Nat.zero_add]

theorem exists_scanNumber_pos (positive : Bool) (hk : k < 18446744073709551616)
    (hrest : Closes rest) (hpos : 0 < k) (n : Nat) :
    ∃ n', scanNumber positive ⟨encodeChars (Nat.toDigits 10 k) ++ rest, n⟩ =
      scanNumberEnd positive k ⟨rest, n'⟩ := by
  obtain ⟨c, cs, hdigits, hc, hzero⟩ := exists_toDigits_pos hpos
  obtain ⟨d, hdigit⟩ := octetDigit?_of_ne_zero hc hzero
  have htake := takeSignificand_toDigits hk hrest
  have htext : encodeChars (Nat.toDigits 10 k) ++ rest =
      .ofNat c.toNat :: (encodeChars cs ++ rest) := by
    rw [hdigits, encodeChars_cons, encodeChar_ascii (octetDigit?_ofNat hc).2]
    rfl
  refine ⟨n + (encodeChars (Nat.toDigits 10 k)).length, ?_⟩
  rw [htext] at htake ⊢
  rw [scanNumber]
  dsimp only
  rw [hdigit, htake]
  change scanNumberEnd positive k (Cursor.skip _ _) = _
  rw [← htext, Cursor.skip, List.drop_left]

/-- The digits of a number are read as its significand, without more. -/
theorem exists_scanNumber_eq (positive : Bool) (hk : k < 18446744073709551616)
    (hrest : Closes rest) (n : Nat) :
    ∃ n', scanNumber positive ⟨encodeChars (Nat.toDigits 10 k) ++ rest, n⟩ =
      scanNumberEnd positive k ⟨rest, n'⟩ := by
  rcases Nat.eq_zero_or_pos k with rfl | hpos
  · exact ⟨n + 1, scanNumber_zero positive hrest n⟩
  · exact exists_scanNumber_pos positive hk hrest hpos n

theorem scanNumberEnd_closes (hrest : Closes rest) (positive : Bool) (k n : Nat) :
    scanNumberEnd positive k ⟨rest, n⟩ =
      if positive then .ok (.integer k, ⟨rest, n⟩)
      else if 0 < k ∧ k ≤ 9223372036854775808 then .ok (.integer (-k), ⟨rest, n⟩)
      else .ok (signed false (.ofNat k), ⟨rest, n⟩) := by
  cases rest with
  | nil => rfl
  | cons b rest => rcases hrest b rfl with rfl | rfl | rfl <;> rfl

/-- An integer without its sign is read back, if it ends where the digits end. -/
theorem scans_integer {n : Int} (hn : isIntegral n = true) (hrest : Closes rest) :
    Scans (scanNumber (decide (0 ≤ n))) (encodeChars (Nat.toDigits 10 n.natAbs)) (.integer n)
      rest := by
  intro offset
  rw [isIntegral, Bool.and_eq_true, decide_eq_true_eq, decide_eq_true_eq] at hn
  obtain ⟨offset', hscan⟩ := exists_scanNumber_eq (decide (0 ≤ n)) (k := n.natAbs) (by omega) hrest
    offset
  refine ⟨offset', ?_⟩
  rw [hscan, scanNumberEnd_closes hrest]
  by_cases hpos : 0 ≤ n
  · rw [if_pos (decide_eq_true hpos), Int.natAbs_of_nonneg hpos]
  · rw [if_neg (by simpa using hpos), if_pos (by omega),
      show -(n.natAbs : Int) = n by omega]

end Integers

end GroupCalendar.Json
