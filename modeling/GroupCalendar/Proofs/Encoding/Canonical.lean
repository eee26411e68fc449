import GroupCalendar.Proofs.Encoding.Base64
import GroupCalendar.Record

/-! # Canonical Base64

Strict reading accepts the texts that encoding writes and no others: a last group is padded to its
end, and the bits of its last symbol that belong to no octet are zero. So every octet string has
one text.
-/

namespace GroupCalendar.Base64

open Text

variable {b : Base64} {offset : Nat} {cs group text bytes : List UInt8} {ns : List Nat}

/-- There are no more characters than numbers of six bits. -/
def Fits (b : Base64) : Prop :=
  b.alphabet.toList.length ≤ 64

instance (b : Base64) : Decidable b.Fits :=
  inferInstanceAs (Decidable (_ ≤ 64))

section Symbols

/-- An octet that is read is that of the number it is read as. -/
theorem octet_of_symbolAt (hf : b.Fits) {c : UInt8} {n : Nat}
    (h : b.symbolAt offset c = .ok n) : b.octet n = c ∧ n < 64 := by
  rw [symbolAt] at h
  split at h
  · next k hk =>
    cases h
    obtain ⟨hlt, hc, -⟩ := List.findIdx?_eq_some_iff_getElem.mp hk
    rw [decide_eq_true_eq] at hc
    refine ⟨?_, Nat.lt_of_lt_of_le hlt hf⟩
    rw [octet, symbol, List.getD_eq_getElem?_getD, List.getElem?_eq_getElem hlt, Option.getD_some,
      hc, UInt8.ofNat_toNat]
  · cases h

theorem octets_of_symbolsAt (hf : b.Fits) (h : b.symbolsAt offset cs = .ok ns) :
    cs = ns.map b.octet ∧ ∀ n ∈ ns, n < 64 := by
  induction cs generalizing offset ns with
  | nil =>
    cases h
    exact ⟨rfl, List.forall_mem_nil _⟩
  | cons c cs ih =>
    rw [symbolsAt] at h
    cases hn : b.symbolAt offset c with
    | error e =>
      rw [hn] at h
      cases h
    | ok n =>
      cases hns : b.symbolsAt (offset + 1) cs with
      | error e =>
        rw [hn, hns] at h
        cases h
      | ok ns =>
        rw [hn, hns] at h
        cases h
        obtain ⟨rfl, hlt⟩ := octet_of_symbolAt hf hn
        obtain ⟨rfl, hall⟩ := ih hns
        exact ⟨rfl, List.forall_mem_cons.mpr ⟨hlt, hall⟩⟩

end Symbols

section Written

variable {x y z w n : Nat}

theorem three_octets (n : Nat) :
    n = n / 65536 * 65536 + n / 256 % 256 * 256 + n % 256 := by
  omega

/-- Two symbols, of which the second ends in four zeros, are written for an octet. -/
theorem octets_encodeChars_join_two (b : Base64) (hx : x < 64) (hy : y < 64) (hy' : y % 16 = 0) :
    octets (b.encodeChars [.ofNat (x * 4 + y / 16)]) = [x, y].map b.octet ++ b.pads 2 := by
  rw [octets_encodeChars_one, Utf8.toNat_ofNat (by omega),
    show (x * 4 + y / 16) * 16 / 64 = x by omega, show (x * 4 + y / 16) * 16 % 64 = y by omega]

/-- Three symbols, of which the third ends in two zeros, are written for two octets. -/
theorem octets_encodeChars_join_three (b : Base64) (hx : x < 64) (hy : y < 64) (hz : z < 64)
    (hz' : z % 4 = 0) (hn : n = x * 1024 + y * 16 + z / 4) :
    octets (b.encodeChars [.ofNat (n / 256), .ofNat (n % 256)]) =
      [x, y, z].map b.octet ++ b.pads 1 := by
  rw [octets_encodeChars_two b _ _ rfl, Utf8.toNat_ofNat (show n / 256 < 256 by omega),
    Utf8.toNat_ofNat (show n % 256 < 256 by omega),
    show (n / 256 * 256 + n % 256) * 4 = n * 4 by omega, show n * 4 / 4096 = x by omega,
    show n * 4 / 64 % 64 = y by omega, show n * 4 % 64 = z by omega]

/-- Four symbols are written for three octets. -/
theorem octets_encodeChars_join_four (b : Base64) (hx : x < 64) (hy : y < 64) (hz : z < 64)
    (hw : w < 64) (hn : n = x * 262144 + y * 4096 + z * 64 + w) (rest : List UInt8) :
    octets (b.encodeChars (.ofNat (n / 65536) :: .ofNat (n / 256 % 256) :: .ofNat (n % 256) ::
      rest)) = [x, y, z, w].map b.octet ++ octets (b.encodeChars rest) := by
  have hnumber : n = (UInt8.ofNat (n / 65536)).toNat * 65536 +
      (UInt8.ofNat (n / 256 % 256)).toNat * 256 + (UInt8.ofNat (n % 256)).toNat := by
    rw [Utf8.toNat_ofNat (show n / 65536 < 256 by omega),
      Utf8.toNat_ofNat (show n / 256 % 256 < 256 by omega),
      Utf8.toNat_ofNat (show n % 256 < 256 by omega)]
    exact three_octets n
  rw [octets_encodeChars_three b _ _ _ rest hnumber, show n / 262144 = x by omega,
    show n / 4096 % 64 = y by omega, show n / 64 % 64 = z by omega, show n % 64 = w by omega]

end Written

section Groups

/-- Padding that completes a group of four is the one that is written. -/
theorem eq_pads {pads : List UInt8} {symbols n : Nat} (hall : pads.any (· ≠ 0x3D) = false)
    (hexact : b.padsExactly symbols pads.length = true) (hle : symbols + pads.length ≤ 4)
    (hpos : 0 < symbols) (hn : symbols + n = 4) : pads = b.pads n := by
  refine List.eq_replicate_iff.mpr ⟨?_, fun c hc => ?_⟩
  · rw [padsExactly] at hexact
    split
    · next hp =>
      rw [if_pos hp, decide_eq_true_eq] at hexact
      omega
    · next hp =>
      rw [if_neg hp, decide_eq_true_eq] at hexact
      exact hexact
  · simpa using List.any_eq_false.mp hall c hc

theorem any_eq_false_of_accepted {pads : List UInt8} {symbols : Nat}
    (h : ¬(!pads.isEmpty && (decide (symbols < 2) || pads.any (· ≠ 0x3D))) = true) :
    pads.any (· ≠ 0x3D) = false := by
  cases pads with
  | nil => rfl
  | cons c pads =>
    rw [Bool.not_eq_true, Bool.and_eq_false_imp] at h
    exact (Bool.or_eq_false_iff.mp (h rfl)).2

/-- The last group that is read is the one that is written. -/
theorem eq_of_decodeLast (hf : b.Fits) (hlength : group.length ≤ 4)
    (h : b.decodeLast offset group = .ok bytes) : group = octets (b.encodeChars bytes) := by
  have hgroup : group.takeWhile (· ≠ 0x3D) ++ group.dropWhile (· ≠ 0x3D) = group :=
    List.takeWhile_append_dropWhile
  rw [decodeLast] at h
  generalize group.takeWhile (· ≠ 0x3D) = symbols at hgroup h
  generalize group.dropWhile (· ≠ 0x3D) = pads at hgroup h
  cases hns : b.symbolsAt offset symbols with
  | error e =>
    simp only [hns] at h
    cases h
  | ok ns =>
    simp only [hns, bind, Except.bind] at h
    obtain ⟨rfl, hlt⟩ := octets_of_symbolsAt hf hns
    subst hgroup
    clear hns
    rw [List.length_append, List.length_map] at hlength
    split at h
    · cases h
    · next hpads =>
      have hall := any_eq_false_of_accepted hpads
      obtain _ | ⟨x, _ | ⟨y, _ | ⟨z, _ | ⟨w, ns⟩⟩⟩⟩ := ns
      · cases h
        have hnil : pads = [] := by simpa using hpads
        rw [hnil]
        rfl
      · cases h
      · dsimp only at h
        split at h
        · cases h
        split at h
        · cases h
        next hexact hzero =>
        cases h
        have hpads : pads = b.pads 2 :=
          eq_pads hall (show b.padsExactly 2 _ = true by simpa using hexact) hlength (by decide) rfl
        rw [octets_encodeChars_join_two b (hlt x (by simp)) (hlt y (by simp)) (by simpa using hzero),
          hpads]
      · dsimp only at h
        split at h
        · cases h
        split at h
        · cases h
        next hexact hzero =>
        cases h
        have hpads : pads = b.pads 1 :=
          eq_pads hall (show b.padsExactly 3 _ = true by simpa using hexact) hlength (by decide) rfl
        rw [octets_encodeChars_join_three b (hlt x (by simp)) (hlt y (by simp)) (hlt z (by simp))
          (by simpa using hzero) rfl, hpads]
      · cases h
        simp only [List.length_cons] at hlength
        obtain rfl : ns = [] := List.eq_nil_of_length_eq_zero (by omega)
        obtain rfl : pads = [] := List.eq_nil_of_length_eq_zero (by omega)
        rw [octets_encodeChars_join_four b (hlt x (by simp)) (hlt y (by simp)) (hlt z (by simp))
          (hlt w (by simp)) rfl]
        rfl

/-- All groups that are read are those that are written. -/
theorem eq_of_decodeGroups (hf : b.Fits) (h : b.decodeGroups offset text = .ok bytes) :
    text = octets (b.encodeChars bytes) := by
  fun_induction decodeGroups b offset text generalizing bytes with
  | case1 offset x y z w v rest ih =>
    obtain ⟨x', hx, h⟩ := Record.bind_eq_ok h
    obtain ⟨y', hy, h⟩ := Record.bind_eq_ok h
    obtain ⟨z', hz, h⟩ := Record.bind_eq_ok h
    obtain ⟨w', hw, h⟩ := Record.bind_eq_ok h
    obtain ⟨bytes', hrest, h⟩ := Record.bind_eq_ok h
    cases h
    obtain ⟨rfl, hltx⟩ := octet_of_symbolAt hf hx
    obtain ⟨rfl, hlty⟩ := octet_of_symbolAt hf hy
    obtain ⟨rfl, hltz⟩ := octet_of_symbolAt hf hz
    obtain ⟨rfl, hltw⟩ := octet_of_symbolAt hf hw
    rw [octets_encodeChars_join_four b hltx hlty hltz hltw rfl, ← ih hrest]
    rfl
  | case2 offset last hlast =>
    refine eq_of_decodeLast hf ?_ h
    match last, hlast with
    | [], _ | [_], _ | [_, _], _ | [_, _, _], _ | [_, _, _, _], _ => simp
    | x :: y :: z :: w :: v :: rest, hlast => exact (hlast x y z w v rest rfl).elim

/-- Octets are read from the text that they are written as, and from no other one. -/
theorem decode_eq_ok_iff (hb : b.Reads) (hf : b.Fits) :
    b.decode text = .ok bytes ↔ text = octets (b.encodeChars bytes) := by
  refine ⟨fun h => ?_, fun h => h ▸ decode_encodeChars hb bytes⟩
  rw [decode] at h
  split at h
  · split at h
    · cases h
    · exact eq_of_decodeGroups hf h
  · next hlast =>
    cases h
    rw [List.getLast?_eq_none_iff.mp hlast]
    rfl

end Groups

end GroupCalendar.Base64
