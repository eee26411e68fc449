import GroupCalendar.Url.Percent
import GroupCalendar.Proofs.Text.Utf8
import Mathlib.Tactic.IntervalCases

/-! # Reading back percent encodings

Where the sign `%` and everything beyond ASCII are encoded, the octets of a text are read back. What
is written then has only characters that are kept, the sign and digits.
-/

namespace GroupCalendar.Percent

open Text

variable {encoded : Char → Bool} {c : Char} {cs : List Char}

/-- The characters that are kept can be told from encodings. -/
structure Reads (encoded : Char → Bool) : Prop where
  percent : encoded '%' = true
  ascii : ∀ c, encoded c = false → c.toNat < 0x80

theorem reads_inSegment (special : Bool) : Reads (inSegment special) where
  percent := by simp [inSegment]
  ascii c h := by
    by_contra hc
    have hcontrol : isControl c = true := by
      rw [isControl, Bool.or_eq_true, decide_eq_true_eq, decide_eq_true_eq]
      omega
    simp [inSegment, inPath, inFragment, hcontrol] at h

section Octets

variable {n : Nat} {b : UInt8} {rest : List UInt8}

theorem hexDigit_spec (h : n < 16) :
    (hexDigit n).toNat < 0x80 ∧ (hexDigit n).isAlphanum ∧
      octetHexDigit? (.ofNat (hexDigit n).toNat) = some n := by
  interval_cases n <;> decide

theorem decodeOctets_of_ne (h : b ≠ 0x25) : decodeOctets (b :: rest) = b :: decodeOctets rest := by
  rw [decodeOctets]
  rintro x y rest' rfl
  exact absurd rfl h

theorem toNat_div_lt (b : UInt8) : b.toNat / 16 < 16 := by
  have := b.toNat_lt
  omega

/-- One octet is read back from its encoding, whatever stands behind it. -/
theorem decodeOctets_encodeOctet (b : UInt8) (rest : List UInt8) :
    decodeOctets ((encodeOctet b).map (fun c => .ofNat c.toNat) ++ rest) =
      b :: decodeOctets rest := by
  obtain ⟨-, -, hhigh⟩ := hexDigit_spec (toNat_div_lt b)
  obtain ⟨-, -, hlow⟩ := hexDigit_spec (Nat.mod_lt b.toNat (show 16 > 0 by decide))
  change decodeOctets (0x25 :: _ :: _ :: rest) = _
  rw [decodeOctets, hhigh, hlow]
  dsimp only
  rw [Nat.div_add_mod']
  simp

theorem mem_encodeOctet (h : c ∈ encodeOctet b) :
    c = '%' ∨ c.toNat < 0x80 ∧ c.isAlphanum := by
  obtain ⟨hhigh, hhigh', -⟩ := hexDigit_spec (toNat_div_lt b)
  obtain ⟨hlow, hlow', -⟩ := hexDigit_spec (Nat.mod_lt b.toNat (show 16 > 0 by decide))
  simp only [encodeOctet, List.mem_cons, List.not_mem_nil, or_false] at h
  rcases h with rfl | rfl | rfl
  · exact .inl rfl
  · exact .inr ⟨hhigh, hhigh'⟩
  · exact .inr ⟨hlow, hlow'⟩

theorem encodeChars_encodeOctet (b : UInt8) :
    Utf8.encodeChars (encodeOctet b) = (encodeOctet b).map fun c => .ofNat c.toNat := by
  refine Utf8.encodeChars_ascii fun c hc => ?_
  rcases mem_encodeOctet hc with rfl | ⟨hascii, -⟩
  · decide
  · exact hascii

theorem decodeOctets_encodeOctets (bytes rest : List UInt8) :
    decodeOctets (Utf8.encodeChars (bytes.flatMap encodeOctet) ++ rest) =
      bytes ++ decodeOctets rest := by
  induction bytes with
  | nil => rfl
  | cons b bytes ih =>
    rw [List.flatMap_cons, Utf8.encodeChars_append, List.append_assoc, encodeChars_encodeOctet,
      decodeOctets_encodeOctet, ih, List.cons_append]

end Octets

section Chars

theorem encode_of_kept (h : ∀ c ∈ cs, encoded c = false) : encode encoded cs = cs := by
  induction cs with
  | nil => rfl
  | cons c cs ih =>
    obtain ⟨hc, hcs⟩ := List.forall_mem_cons.mp h
    rw [encode, List.flatMap_cons, encodeChar, hc, ← encode, ih hcs]
    rfl

/-- A character that was written is a kept one, or a part of an encoding. -/
theorem mem_encode (h : c ∈ encode encoded cs) :
    encoded c = false ∨ c = '%' ∨ c.isAlphanum := by
  obtain ⟨d, -, hc⟩ := List.mem_flatMap.mp h
  rw [encodeChar] at hc
  split at hc
  · obtain ⟨b, -, hc⟩ := List.mem_flatMap.mp hc
    rcases mem_encodeOctet hc with rfl | ⟨-, hdigit⟩
    · exact .inr (.inl rfl)
    · exact .inr (.inr hdigit)
  · next hkept =>
    obtain rfl := List.mem_singleton.mp hc
    exact .inl (by simpa using hkept)

/-- One character is read back, whatever stands behind it. -/
theorem decodeOctets_encodeChar (h : Reads encoded) (c : Char) (rest : List UInt8) :
    decodeOctets (Utf8.encodeChars (encodeChar encoded c) ++ rest) =
      Utf8.encodeChar c ++ decodeOctets rest := by
  rw [encodeChar]
  split
  · exact decodeOctets_encodeOctets ..
  · next hkept =>
    rw [Bool.not_eq_true] at hkept
    have hascii := h.ascii c hkept
    have hpercent : c ≠ '%' := by
      rintro rfl
      rw [h.percent] at hkept
      cases hkept
    have hne : UInt8.ofNat c.toNat ≠ 0x25 := Utf8.ofNat_ne hascii (by decide) hpercent
    rw [Utf8.encodeChars_cons, Utf8.encodeChar_ascii hascii, List.append_assoc,
      List.singleton_append, decodeOctets_of_ne hne]
    rfl

theorem decode_encode (h : Reads encoded) (cs : List Char) :
    decode (encode encoded cs) = Utf8.encodeChars cs := by
  rw [decode]
  induction cs with
  | nil => rfl
  | cons c cs ih =>
    rw [encode, List.flatMap_cons, Utf8.encodeChars_append, decodeOctets_encodeChar h, ← encode, ih,
      Utf8.encodeChars_cons]

end Chars

end GroupCalendar.Percent
