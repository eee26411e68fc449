import GroupCalendar.Text.Utf8
import Mathlib.Data.Nat.Init

/-! # Reading back UTF-8

Strict decoding reads the octets of each character back and goes on with what follows them, so that
the octets of a text are read as that text. No other octets are read.
-/

namespace GroupCalendar.Text.Utf8

variable {c : Char} {rest : List UInt8}

theorem toNat_ofNat {n : Nat} (h : n < 256) : (UInt8.ofNat n).toNat = n := by
  rw [UInt8.toNat_ofNat', Nat.mod_eq_of_lt h]

theorem toNat_mem (c : Char) : c.toNat < 0xD800 ∨ 0xDFFF < c.toNat ∧ c.toNat < 0x110000 :=
  c.valid

theorem start_ascii {n : Nat} (h : n < 0x80) : start (.ofNat n) = .finished (.ofNat n) := by
  simp only [start, toNat_ofNat (show n < 256 by omega), if_pos h]

/-- The first octet of two. -/
theorem start_two {n : Nat} (h : 2 ≤ n) (h' : n < 32) :
    start (.ofNat (0xC0 + n)) = .unfinished ⟨0, 0x80, 0xBF, n⟩ := by
  simp only [start, toNat_ofNat (show 0xC0 + n < 256 by omega)]
  rw [if_neg (by omega), if_neg (by omega), if_pos (by omega), Nat.add_sub_cancel_left]

/-- The first octet of three. -/
theorem start_three {n : Nat} (h : n < 16) :
    start (.ofNat (0xE0 + n)) = .unfinished
      ⟨1, if n = 0 then 0xA0 else 0x80, if n = 13 then 0x9F else 0xBF, n⟩ := by
  simp only [start, toNat_ofNat (show 0xE0 + n < 256 by omega)]
  rw [if_neg (by omega), if_neg (by omega), if_neg (by omega), if_pos (by omega),
    Nat.add_sub_cancel_left]
  simp only [Nat.add_eq_left, show (0xE0 + n = 0xED) = (n = 13) by simp; omega]

/-- The first octet of four. -/
theorem start_four {n : Nat} (h : n < 5) :
    start (.ofNat (0xF0 + n)) = .unfinished
      ⟨2, if n = 0 then 0x90 else 0x80, if n = 4 then 0x8F else 0xBF, n⟩ := by
  simp only [start, toNat_ofNat (show 0xF0 + n < 256 by omega)]
  rw [if_neg (by omega), if_neg (by omega), if_neg (by omega), if_neg (by omega),
    if_pos (by omega), Nat.add_sub_cancel_left]
  simp only [Nat.add_eq_left, show (0xF0 + n = 0xF4) = (n = 4) by simp; omega]

/-- The last octet of a character. -/
theorem decodeFrom?_last {low high bits n : Nat} (hlow : low ≤ 0x80 + n) (hhigh : 0x80 + n ≤ high)
    (hn : n < 64) :
    decodeFrom? (some ⟨0, low, high, bits⟩) (.ofNat (0x80 + n) :: rest) =
      (decodeFrom? none rest).map (.ofNat (bits * 64 + n) :: ·) := by
  have hoctet : 0x80 + n < 256 := by omega
  simp only [decodeFrom?, Option.elim_some, Pending.next, toNat_ofNat hoctet,
    Nat.add_sub_cancel_left, hlow, hhigh, decide_true, Bool.and_self, if_true]

/-- An octet of a character that is not its last. -/
theorem decodeFrom?_more {owed low high bits n : Nat} (hlow : low ≤ 0x80 + n)
    (hhigh : 0x80 + n ≤ high) (hn : n < 64) :
    decodeFrom? (some ⟨owed + 1, low, high, bits⟩) (.ofNat (0x80 + n) :: rest) =
      decodeFrom? (some ⟨owed, 0x80, 0xBF, bits * 64 + n⟩) rest := by
  have hoctet : 0x80 + n < 256 := by omega
  simp only [decodeFrom?, Option.elim_some, Pending.next, toNat_ofNat hoctet,
    Nat.add_sub_cancel_left, hlow, hhigh, decide_true, Bool.and_self, if_true]

theorem decodeFrom?_start {b : UInt8} {p : Pending} (h : start b = .unfinished p) :
    decodeFrom? none (b :: rest) = decodeFrom? (some p) rest := by
  simp only [decodeFrom?, Option.elim_none, h]

/-- The octets of a character are read as that character, and reading goes on behind them. -/
theorem decodeFrom?_encodeChar (c : Char) (rest : List UInt8) :
    decodeFrom? none (encodeChar c ++ rest) = (decodeFrom? none rest).map (c :: ·) := by
  have hc := toNat_mem c
  simp only [encodeChar]
  split
  · next h =>
    rw [List.singleton_append]
    simp only [decodeFrom?, Option.elim_none, start_ascii h, Char.ofNat_toNat]
  split
  · next h h' =>
    rw [List.cons_append, List.singleton_append,
      decodeFrom?_start (start_two (by omega) (by omega)),
      decodeFrom?_last (by omega) (by omega) (by omega),
      show c.toNat / 64 * 64 + c.toNat % 64 = c.toNat by omega, Char.ofNat_toNat]
  split
  · next h h' h'' =>
    rw [List.cons_append, List.cons_append, List.singleton_append,
      decodeFrom?_start (start_three (by omega)),
      decodeFrom?_more (by split <;> omega) (by split <;> omega) (by omega),
      decodeFrom?_last (by omega) (by omega) (by omega),
      show (c.toNat / 4096 * 64 + c.toNat / 64 % 64) * 64 + c.toNat % 64 = c.toNat by omega,
      Char.ofNat_toNat]
  · next h h' h'' =>
    rw [List.cons_append, List.cons_append, List.cons_append, List.singleton_append,
      decodeFrom?_start (start_four (by omega)),
      decodeFrom?_more (by split <;> omega) (by split <;> omega) (by omega),
      decodeFrom?_more (by omega) (by omega) (by omega),
      decodeFrom?_last (by omega) (by omega) (by omega),
      show ((c.toNat / 262144 * 64 + c.toNat / 4096 % 64) * 64 + c.toNat / 64 % 64) * 64 +
        c.toNat % 64 = c.toNat by omega, Char.ofNat_toNat]

theorem decodeFrom?_encodeChars (cs : List Char) : decodeFrom? none (encodeChars cs) = some cs := by
  induction cs with
  | nil => rfl
  | cons c cs ih =>
    rw [encodeChars, List.flatMap_cons, decodeFrom?_encodeChar, ← encodeChars, ih]
    rfl

theorem encodeChars_inj {cs ds : List Char} : encodeChars cs = encodeChars ds ↔ cs = ds := by
  refine ⟨fun h => ?_, fun h => by rw [h]⟩
  have hread := decodeFrom?_encodeChars cs
  rw [h, decodeFrom?_encodeChars] at hread
  exact (Option.some.inj hread).symm

/-- A text is read back from its octets. -/
theorem decode?_encode (s : String) : decode? (encode s) = some s := by
  rw [decode?, decodeChars?, encode, decodeFrom?_encodeChars, Option.map_some, String.ofList_toList]

/-- Where strict decoding succeeds, lossy decoding has nothing to replace. -/
theorem decodeLossyFrom_of_decodeFrom? {bytes : List UInt8} : ∀ {state : Option Pending}
    {cs : List Char}, decodeFrom? state bytes = some cs → decodeLossyFrom state bytes = cs := by
  induction bytes with
  | nil =>
    rintro (_ | p) cs h
    · cases h
      rfl
    · cases h
  | cons b rest ih =>
    rintro (_ | p) cs h
    · rw [decodeFrom?, Option.elim_none] at h
      rw [decodeLossyFrom]
      split at h
      · next c hc =>
        obtain ⟨cs, hcs, rfl⟩ := Option.map_eq_some_iff.mp h
        rw [ih hcs]
      · next p hp => exact ih h
      · cases h
    · rw [decodeFrom?, Option.elim_some] at h
      rw [decodeLossyFrom]
      split at h
      · next c hc =>
        obtain ⟨cs, hcs, rfl⟩ := Option.map_eq_some_iff.mp h
        rw [ih hcs]
      · next q hq => exact ih h
      · cases h

theorem decodeLossy_encode (s : String) : decodeLossy (encode s) = s := by
  rw [decodeLossy, encode, decodeLossyFrom_of_decodeFrom? (decodeFrom?_encodeChars s.toList),
    String.ofList_toList]

/-- The octets of an ASCII character are its number. -/
theorem encodeChar_ascii (h : c.toNat < 0x80) : encodeChar c = [.ofNat c.toNat] :=
  if_pos h

/-- Another ASCII character has another octet. -/
theorem ofNat_ne {d : Char} (hc : c.toNat < 0x80) (hd : d.toNat < 0x80) (h : c ≠ d) :
    UInt8.ofNat c.toNat ≠ .ofNat d.toNat := by
  intro he
  have hcode := congrArg UInt8.toNat he
  rw [toNat_ofNat (by omega), toNat_ofNat (by omega)] at hcode
  exact h (Char.toNat_inj.mp hcode)

theorem encodeChars_cons (c : Char) (cs : List Char) :
    encodeChars (c :: cs) = encodeChar c ++ encodeChars cs :=
  List.flatMap_cons

theorem encodeChars_append (cs ds : List Char) :
    encodeChars (cs ++ ds) = encodeChars cs ++ encodeChars ds :=
  List.flatMap_append

theorem encodeChars_ascii {cs : List Char} (h : ∀ c ∈ cs, c.toNat < 0x80) :
    encodeChars cs = cs.map fun c => .ofNat c.toNat := by
  induction cs with
  | nil => rfl
  | cons c cs ih =>
    obtain ⟨hc, hcs⟩ := List.forall_mem_cons.mp h
    rw [encodeChars_cons, encodeChar_ascii hc, ih hcs]
    rfl

section Wellformed

variable {bytes : List UInt8} {cs : List Char}

theorem toNat_charOfNat {n : Nat} (h : n.isValidChar) : (Char.ofNat n).toNat = n := by
  rw [Char.ofNat, dif_pos h]
  rfl

/-- A character that is not finished goes on with an octet in its range. -/
theorem exists_of_pending {owed low high bits : Nat} (hlow : 0x80 ≤ low) (hhigh : high ≤ 0xBF)
    (h : decodeFrom? (some ⟨owed, low, high, bits⟩) bytes = some cs) :
    ∃ n tail, bytes = .ofNat (0x80 + n) :: tail ∧ n < 64 ∧ low ≤ 0x80 + n ∧
      0x80 + n ≤ high := by
  cases bytes with
  | nil => cases h
  | cons b tail =>
    by_cases hb : low ≤ b.toNat ∧ b.toNat ≤ high
    · obtain ⟨n, hn⟩ := Nat.exists_eq_add_of_le (Nat.le_trans hlow hb.1)
      rw [hn] at hb
      refine ⟨n, tail, ?_, by omega, hb⟩
      rw [← hn, UInt8.ofNat_toNat]
    · have hnext : Pending.next ⟨owed, low, high, bits⟩ b = .malformed := by
        rw [Pending.next, if_neg (by simpa using hb)]
      simp only [decodeFrom?, Option.elim_some, hnext] at h
      cases h

/-- Two octets that are read are those of a character. -/
theorem exists_two {a : Nat} (ha : 2 ≤ a) (ha' : a < 32)
    (h : decodeFrom? (some ⟨0, 0x80, 0xBF, a⟩) rest = some cs) :
    ∃ c tail, .ofNat (0xC0 + a) :: rest = encodeChar c ++ tail := by
  obtain ⟨x, tail, rfl, hx, -⟩ := exists_of_pending (by decide) (by decide) h
  refine ⟨.ofNat (a * 64 + x), tail, ?_⟩
  rw [encodeChar, toNat_charOfNat (.inl (by omega))]
  simp only [if_neg (show ¬ a * 64 + x < 0x80 by omega),
    if_pos (show a * 64 + x < 0x800 by omega), show (a * 64 + x) / 64 = a by omega,
    show (a * 64 + x) % 64 = x by omega]
  rfl

/-- Three octets that are read are those of a character, since the second is no surrogate's. -/
theorem exists_three {a : Nat} (ha : a < 16)
    (h : decodeFrom? (some ⟨1, if a = 0 then 0xA0 else 0x80, if a = 13 then 0x9F else 0xBF, a⟩)
      rest = some cs) :
    ∃ c tail, .ofNat (0xE0 + a) :: rest = encodeChar c ++ tail := by
  obtain ⟨x, rest, rfl, hx, hlow, hhigh⟩ :=
    exists_of_pending (by split <;> decide) (by split <;> decide) h
  rw [decodeFrom?_more hlow hhigh hx] at h
  obtain ⟨y, tail, rfl, hy, -⟩ := exists_of_pending (by decide) (by decide) h
  obtain ⟨n, hn⟩ : ∃ n, n = (a * 64 + x) * 64 + y := ⟨_, rfl⟩
  have hmin : 0x800 ≤ n := by split at hlow <;> omega
  have hvalid : n.isValidChar := by
    rcases Nat.lt_trichotomy a 13 with hlt | heq | hgt
    · exact .inl (by omega)
    · rw [if_pos heq] at hhigh
      exact .inl (by omega)
    · exact .inr ⟨by omega, by omega⟩
  refine ⟨.ofNat n, tail, ?_⟩
  rw [encodeChar, toNat_charOfNat hvalid]
  simp only [if_neg (show ¬ n < 0x80 by omega), if_neg (show ¬ n < 0x800 by omega),
    if_pos (show n < 0x10000 by omega), show n / 4096 = a by omega,
    show n / 64 % 64 = x by omega, show n % 64 = y by omega]
  rfl

/-- Four octets that are read are those of a character, since the second does not lead too far. -/
theorem exists_four {a : Nat} (ha : a < 5)
    (h : decodeFrom? (some ⟨2, if a = 0 then 0x90 else 0x80, if a = 4 then 0x8F else 0xBF, a⟩)
      rest = some cs) :
    ∃ c tail, .ofNat (0xF0 + a) :: rest = encodeChar c ++ tail := by
  obtain ⟨x, rest, rfl, hx, hlow, hhigh⟩ :=
    exists_of_pending (by split <;> decide) (by split <;> decide) h
  rw [decodeFrom?_more hlow hhigh hx] at h
  obtain ⟨y, rest, rfl, hy, -⟩ := exists_of_pending (by decide) (by decide) h
  rw [decodeFrom?_more (by omega) (by omega) hy] at h
  obtain ⟨z, tail, rfl, hz, -⟩ := exists_of_pending (by decide) (by decide) h
  obtain ⟨n, hn⟩ : ∃ n, n = ((a * 64 + x) * 64 + y) * 64 + z := ⟨_, rfl⟩
  have hmin : 0x10000 ≤ n := by split at hlow <;> omega
  have hmax : n < 0x110000 := by split at hhigh <;> omega
  refine ⟨.ofNat n, tail, ?_⟩
  rw [encodeChar, toNat_charOfNat (.inr ⟨by omega, hmax⟩)]
  simp only [if_neg (show ¬ n < 0x80 by omega), if_neg (show ¬ n < 0x800 by omega),
    if_neg (show ¬ n < 0x10000 by omega), show n / 262144 = a by omega,
    show n / 4096 % 64 = x by omega, show n / 64 % 64 = y by omega, show n % 64 = z by omega]
  rfl

theorem start_malformed {n : Nat} (h : 0x80 ≤ n ∧ n < 0xC2 ∨ 0xF5 ≤ n) (hn : n < 256) :
    start (.ofNat n) = .malformed := by
  simp only [start, toNat_ofNat hn]
  grind

/-- What is read begins with the octets of a character. -/
theorem exists_encodeChar {b : UInt8} (h : decodeFrom? none (b :: rest) = some cs) :
    ∃ c tail, b :: rest = encodeChar c ++ tail := by
  obtain ⟨n, rfl, hn⟩ : ∃ n, b = .ofNat n ∧ n < 256 :=
    ⟨b.toNat, UInt8.ofNat_toNat.symm, b.toNat_lt⟩
  have hstart : start (.ofNat n) ≠ .malformed := by
    intro hs
    simp only [decodeFrom?, Option.elim_none, hs] at h
    cases h
  have hn := mt (start_malformed · hn) hstart
  rcases Nat.lt_or_ge n 0x80 with hone | hone
  · refine ⟨.ofNat n, rest, ?_⟩
    rw [encodeChar, toNat_charOfNat (.inl (by omega)), if_pos hone, List.singleton_append]
  rcases Nat.lt_or_ge n 0xE0 with htwo | htwo
  · obtain ⟨a, rfl⟩ := Nat.exists_eq_add_of_le (show 0xC0 ≤ n by omega)
    rw [decodeFrom?_start (start_two (by omega) (by omega))] at h
    exact exists_two (by omega) (by omega) h
  rcases Nat.lt_or_ge n 0xF0 with hthree | hthree
  · obtain ⟨a, rfl⟩ := Nat.exists_eq_add_of_le htwo
    rw [decodeFrom?_start (start_three (by omega))] at h
    exact exists_three (by omega) h
  · obtain ⟨a, rfl⟩ := Nat.exists_eq_add_of_le hthree
    rw [decodeFrom?_start (start_four (by omega))] at h
    exact exists_four (by omega) h

/-- Octets are read as the characters that are written with them, and no others are read. -/
theorem decodeFrom?_eq_some_iff : decodeFrom? none bytes = some cs ↔ bytes = encodeChars cs := by
  refine ⟨fun h => ?_, fun h => h ▸ decodeFrom?_encodeChars cs⟩
  induction cs generalizing bytes with
  | nil =>
    cases bytes with
    | nil => rfl
    | cons b rest =>
      obtain ⟨c, tail, hbytes⟩ := exists_encodeChar h
      rw [hbytes, decodeFrom?_encodeChar] at h
      obtain ⟨ds, -, hds⟩ := Option.map_eq_some_iff.mp h
      cases hds
  | cons c cs ih =>
    cases bytes with
    | nil => cases h
    | cons b rest =>
      obtain ⟨d, tail, hbytes⟩ := exists_encodeChar h
      rw [hbytes, decodeFrom?_encodeChar] at h
      obtain ⟨ds, hds, hcons⟩ := Option.map_eq_some_iff.mp h
      cases hcons
      rw [hbytes, encodeChars_cons, ih hds]

theorem decode?_eq_some_iff {s : String} : decode? bytes = some s ↔ bytes = encode s := by
  rw [decode?, decodeChars?, encode, ← decodeFrom?_eq_some_iff, Option.map_eq_some_iff]
  constructor
  · rintro ⟨cs, hcs, rfl⟩
    rwa [String.toList_ofList]
  · exact fun h => ⟨_, h, String.ofList_toList⟩

end Wellformed

end GroupCalendar.Text.Utf8
