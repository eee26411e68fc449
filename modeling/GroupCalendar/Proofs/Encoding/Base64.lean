import GroupCalendar.Encoding.Base64
import GroupCalendar.Proofs.Text.Utf8

/-! # Reading back Base64

Strict reading gives back what was encoded, group of octets by group of octets, with padding and
without it.
-/

namespace GroupCalendar.Base64

open Text

variable {b : Base64} {offset k : Nat} {ns : List Nat}

/-- Every number below 64 can be read from its symbol, which is of ASCII and not the padding. -/
def Reads (b : Base64) : Prop :=
  ∀ n < 64, b.value? (.ofNat (b.symbol n).toNat) = some n ∧ (b.symbol n).toNat < 0x80 ∧
    b.symbol n ≠ '='

instance (b : Base64) : Decidable b.Reads :=
  inferInstanceAs (Decidable (∀ n < 64, _))

theorem reads_urlSafe : urlSafe.Reads := by decide +kernel

theorem reads_urlSafeUnpadded : urlSafeUnpadded.Reads := reads_urlSafe

/-- The octet of a symbol. -/
def octet (b : Base64) (n : Nat) : UInt8 :=
  .ofNat (b.symbol n).toNat

theorem octet_ne (hb : b.Reads) {n : Nat} (h : n < 64) : b.octet n ≠ 0x3D := by
  intro he
  obtain ⟨-, hascii, hne⟩ := hb n h
  have hnat : (b.symbol n).toNat = 0x3D := by
    have := congrArg UInt8.toNat he
    rw [octet, Utf8.toNat_ofNat (by omega)] at this
    exact this
  exact hne (Char.toNat_inj.mp hnat)

theorem symbolAt_octet (hb : b.Reads) {n : Nat} (h : n < 64) :
    b.symbolAt offset (b.octet n) = .ok n := by
  rw [symbolAt, octet, (hb n h).1]

theorem symbolsAt_octets (hb : b.Reads) (hn : ∀ n ∈ ns, n < 64) :
    b.symbolsAt offset (ns.map b.octet) = .ok ns := by
  induction ns generalizing offset with
  | nil => rfl
  | cons n ns ih =>
    obtain ⟨h, hn⟩ := List.forall_mem_cons.mp hn
    rw [List.map_cons, symbolsAt, symbolAt_octet hb h, ih hn]
    rfl

theorem takeWhile_octets (hb : b.Reads) (hn : ∀ n ∈ ns, n < 64) :
    (ns.map b.octet ++ List.replicate k 0x3D).takeWhile (· ≠ 0x3D) = ns.map b.octet := by
  rw [List.takeWhile_append_of_pos]
  · cases k <;> simp [List.replicate_succ]
  · intro c hc
    obtain ⟨n, h, rfl⟩ := List.mem_map.mp hc
    exact decide_eq_true (octet_ne hb (hn n h))

theorem dropWhile_octets (hb : b.Reads) (hn : ∀ n ∈ ns, n < 64) :
    (ns.map b.octet ++ List.replicate k 0x3D).dropWhile (· ≠ 0x3D) = List.replicate k 0x3D := by
  rw [List.dropWhile_append_of_pos]
  · cases k <;> simp [List.replicate_succ]
  · intro c hc
    obtain ⟨n, h, rfl⟩ := List.mem_map.mp hc
    exact decide_eq_true (octet_ne hb (hn n h))

/-- The padding behind some symbols. -/
def pads (b : Base64) (n : Nat) : List UInt8 :=
  List.replicate (if b.padded then n else 0) 0x3D

theorem padsExactly_pads (b : Base64) {symbols n : Nat} (h : symbols + n = 4) :
    b.padsExactly symbols (b.pads n).length = true := by
  rw [padsExactly, pads, List.length_replicate]
  split
  · rw [h]
    rfl
  · rfl

theorem any_pads (b : Base64) (n : Nat) : (b.pads n).any (· ≠ 0x3D) = false := by
  simp [pads]

/-- A last group of two symbols, of which the second ends in four zeros. -/
theorem decodeLast_two (hb : b.Reads) {x y : Nat} (hx : x < 64) (hy : y < 64) (hz : y % 16 = 0) :
    b.decodeLast offset ([x, y].map b.octet ++ b.pads 2) = .ok [.ofNat (x * 4 + y / 16)] := by
  have hn : ∀ n ∈ [x, y], n < 64 := by simp [hx, hy]
  have hpad : b.padsExactly 2 (b.pads 2).length = true := b.padsExactly_pads rfl
  have hany := b.any_pads 2
  simp only [pads] at hpad hany
  simp only [decodeLast, pads, takeWhile_octets hb hn, dropWhile_octets hb hn,
    symbolsAt_octets hb hn, bind, Except.bind, hany, hpad]
  rw [if_neg (by simp), if_neg (by simp), if_neg (by simp [hz])]
  rfl

/-- A last group of three symbols, of which the third ends in two zeros. -/
theorem decodeLast_three (hb : b.Reads) {x y z : Nat} (hx : x < 64) (hy : y < 64) (hz : z < 64)
    (hz' : z % 4 = 0) :
    b.decodeLast offset ([x, y, z].map b.octet ++ b.pads 1) =
      .ok [.ofNat ((x * 1024 + y * 16 + z / 4) / 256),
        .ofNat ((x * 1024 + y * 16 + z / 4) % 256)] := by
  have hn : ∀ n ∈ [x, y, z], n < 64 := by simp [hx, hy, hz]
  have hpad : b.padsExactly 3 (b.pads 1).length = true := b.padsExactly_pads rfl
  have hany := b.any_pads 1
  simp only [pads] at hpad hany
  simp only [decodeLast, pads, takeWhile_octets hb hn, dropWhile_octets hb hn,
    symbolsAt_octets hb hn, bind, Except.bind, hany, hpad]
  rw [if_neg (by simp), if_neg (by simp), if_neg (by simp [hz'])]
  rfl

/-- A last group of four symbols. -/
theorem decodeLast_four (hb : b.Reads) {x y z w : Nat} (hx : x < 64) (hy : y < 64) (hz : z < 64)
    (hw : w < 64) :
    b.decodeLast offset ([x, y, z, w].map b.octet) =
      .ok [.ofNat ((x * 262144 + y * 4096 + z * 64 + w) / 65536),
        .ofNat ((x * 262144 + y * 4096 + z * 64 + w) / 256 % 256),
        .ofNat ((x * 262144 + y * 4096 + z * 64 + w) % 256)] := by
  have hn : ∀ n ∈ [x, y, z, w], n < 64 := by simp [hx, hy, hz, hw]
  have htake := takeWhile_octets (k := 0) hb hn
  have hdrop := dropWhile_octets (k := 0) hb hn
  simp only [List.replicate_zero, List.append_nil] at htake hdrop
  simp only [decodeLast, htake, hdrop, symbolsAt_octets hb hn, bind, Except.bind,
    List.isEmpty_nil, Bool.not_true, Bool.false_and, Bool.false_eq_true, if_false, pure,
    Except.pure]

theorem decodeGroups_of_length_le {group : List UInt8} (h : group.length ≤ 4) :
    b.decodeGroups offset group = b.decodeLast offset group := by
  match group, h with
  | [], _ | [_], _ | [_, _], _ | [_, _, _], _ | [_, _, _, _], _ => rfl

/-- Four symbols with something behind them. -/
theorem decodeGroups_four (hb : b.Reads) {x y z w : Nat} (hx : x < 64) (hy : y < 64) (hz : z < 64)
    (hw : w < 64) {group bytes : List UInt8} (hne : group ≠ [])
    (h : b.decodeGroups (offset + 4) group = .ok bytes) :
    b.decodeGroups offset ([x, y, z, w].map b.octet ++ group) =
      .ok (.ofNat ((x * 262144 + y * 4096 + z * 64 + w) / 65536) ::
        .ofNat ((x * 262144 + y * 4096 + z * 64 + w) / 256 % 256) ::
        .ofNat ((x * 262144 + y * 4096 + z * 64 + w) % 256) :: bytes) := by
  match group, hne with
  | v :: rest, _ =>
    simp only [List.map_cons, List.map_nil, List.cons_append, List.nil_append, decodeGroups,
      symbolAt_octet hb hx, symbolAt_octet hb hy, symbolAt_octet hb hz, symbolAt_octet hb hw, h]
    rfl

/-- Characters as octets. -/
def octets (cs : List Char) : List UInt8 :=
  cs.map fun c => .ofNat c.toNat

theorem octets_padding (b : Base64) (n : Nat) : octets (b.padding n) = b.pads n := by
  rw [padding, pads, octets]
  split
  · rw [List.map_replicate]
    rfl
  · rfl

theorem length_pads_le (b : Base64) (n : Nat) : (b.pads n).length ≤ n := by
  rw [pads, List.length_replicate]
  split <;> omega

theorem ofNat_of_eq {n : Nat} {x : UInt8} (h : n = x.toNat) : UInt8.ofNat n = x := by
  rw [h, UInt8.ofNat_toNat]

theorem encodeChars_ne_nil {x : UInt8} {rest : List UInt8} : b.encodeChars (x :: rest) ≠ [] := by
  match rest with
  | [] | [_] | _ :: _ :: _ => simp [encodeChars]

theorem octets_encodeChars_one (b : Base64) (x : UInt8) :
    octets (b.encodeChars [x]) =
      [x.toNat * 16 / 64, x.toNat * 16 % 64].map b.octet ++ b.pads 2 := by
  rw [← octets_padding, octets, encodeChars, List.map_append]
  rfl

theorem octets_encodeChars_two (b : Base64) (x y : UInt8) {n : Nat}
    (h : n = (x.toNat * 256 + y.toNat) * 4) :
    octets (b.encodeChars [x, y]) =
      [n / 4096, n / 64 % 64, n % 64].map b.octet ++ b.pads 1 := by
  rw [← octets_padding, octets, encodeChars, List.map_append, h]
  rfl

theorem octets_encodeChars_three (b : Base64) (x y z : UInt8) (rest : List UInt8) {n : Nat}
    (h : n = x.toNat * 65536 + y.toNat * 256 + z.toNat) :
    octets (b.encodeChars (x :: y :: z :: rest)) =
      [n / 262144, n / 4096 % 64, n / 64 % 64, n % 64].map b.octet ++
        octets (b.encodeChars rest) := by
  rw [h]
  rfl

/-- What was encoded is read back, whatever the place of its first symbol. -/
theorem decodeGroups_encodeChars (hb : b.Reads) : ∀ (bytes : List UInt8) (offset : Nat),
    b.decodeGroups offset (octets (b.encodeChars bytes)) = .ok bytes
  | [], _ => rfl
  | [x], offset => by
    have hx := x.toNat_lt
    have hlength := b.length_pads_le 2
    rw [octets_encodeChars_one, decodeGroups_of_length_le (by simp; omega),
      decodeLast_two hb (by omega) (by omega) (by omega), ofNat_of_eq (x := x) (by omega)]
  | [x, y], offset => by
    have hx := x.toNat_lt
    have hy := y.toNat_lt
    have hlength := b.length_pads_le 1
    rw [octets_encodeChars_two b x y rfl, decodeGroups_of_length_le (by simp; omega),
      decodeLast_three hb (by omega) (by omega) (by omega) (by omega), ofNat_of_eq (x := x)
        (by omega), ofNat_of_eq (x := y) (by omega)]
  | x :: y :: z :: rest, offset => by
    have hx := x.toNat_lt
    have hy := y.toNat_lt
    have hz := z.toNat_lt
    obtain ⟨n, hn⟩ : ∃ n, n = x.toNat * 65536 + y.toNat * 256 + z.toNat := ⟨_, rfl⟩
    -- The four symbols are read as the number of the three octets.
    have hjoin : n / 262144 * 262144 + n / 4096 % 64 * 4096 + n / 64 % 64 * 64 + n % 64 = n := by
      omega
    have hfirst : UInt8.ofNat (n / 65536) = x := ofNat_of_eq (by omega)
    have hsecond : UInt8.ofNat (n / 256 % 256) = y := ofNat_of_eq (by omega)
    have hthird : UInt8.ofNat (n % 256) = z := ofNat_of_eq (by omega)
    have ih := decodeGroups_encodeChars hb rest (offset + 4)
    rw [octets_encodeChars_three b x y z rest hn]
    cases rest with
    | nil =>
      rw [show octets (b.encodeChars []) = [] from rfl, List.append_nil,
        decodeGroups_of_length_le (by simp),
        decodeLast_four hb (by omega) (by omega) (by omega) (by omega), hjoin, hfirst, hsecond,
        hthird]
    | cons u rest =>
      have hne : octets (b.encodeChars (u :: rest)) ≠ [] := by
        rw [octets, ne_eq, List.map_eq_nil_iff]
        exact encodeChars_ne_nil
      rw [decodeGroups_four hb (by omega) (by omega) (by omega) (by omega) hne ih, hjoin, hfirst,
        hsecond, hthird]

theorem length_encodeChars_mod (b : Base64) : ∀ bytes : List UInt8,
    (b.encodeChars bytes).length % 4 ≠ 1
  | [] => Nat.zero_ne_one
  | [_] | [_, _] => by
    simp only [encodeChars, padding]
    split <;> simp
  | x :: y :: z :: rest => by
    have ih := length_encodeChars_mod b rest
    simp only [encodeChars, List.length_cons]
    omega

/-- What was encoded is read back. -/
theorem decode_encodeChars (hb : b.Reads) (bytes : List UInt8) :
    b.decode (octets (b.encodeChars bytes)) = .ok bytes := by
  have hgroups := decodeGroups_encodeChars hb bytes 0
  have hmod := b.length_encodeChars_mod bytes
  rw [decode]
  cases hlast : (octets (b.encodeChars bytes)).getLast? with
  | none =>
    rw [List.getLast?_eq_none_iff] at hlast
    rw [hlast] at hgroups
    exact hgroups
  | some c =>
    refine (if_neg fun h => hmod ?_).trans hgroups
    rw [octets, List.length_map] at h
    exact h.1

theorem mem_padding {c : Char} {n : Nat} (h : c ∈ b.padding n) : c = '=' := by
  rw [padding] at h
  split at h
  · exact List.eq_of_mem_replicate h
  · cases h

/-- A text in Base64 is made of symbols with padding behind them. -/
theorem exists_symbols (b : Base64) : ∀ bytes : List UInt8, ∃ (ns : List Nat) (k : Nat),
    b.encodeChars bytes = ns.map b.symbol ++ b.padding k ∧ ∀ n ∈ ns, n < 64
  | [] => ⟨[], 0, by simp [encodeChars, padding], by simp⟩
  | [x] => by
    have hx := x.toNat_lt
    refine ⟨[_, _], 2, rfl, ?_⟩
    simp only [List.forall_mem_cons, List.not_mem_nil, false_implies, implies_true, and_true]
    omega
  | [x, y] => by
    have hx := x.toNat_lt
    have hy := y.toNat_lt
    refine ⟨[_, _, _], 1, rfl, ?_⟩
    simp only [List.forall_mem_cons, List.not_mem_nil, false_implies, implies_true, and_true]
    omega
  | x :: y :: z :: rest => by
    have hx := x.toNat_lt
    have hy := y.toNat_lt
    have hz := z.toNat_lt
    obtain ⟨ns, k, hrest, hns⟩ := exists_symbols b rest
    obtain ⟨n, hn⟩ : ∃ n, n = x.toNat * 65536 + y.toNat * 256 + z.toNat := ⟨_, rfl⟩
    refine ⟨[n / 262144, n / 4096 % 64, n / 64 % 64, n % 64] ++ ns, k, ?_, ?_⟩
    · rw [encodeChars, hrest, hn]
      rfl
    · refine List.forall_mem_append.mpr ⟨?_, hns⟩
      simp only [List.forall_mem_cons, List.not_mem_nil, false_implies, implies_true, and_true]
      omega

theorem mem_encodeChars {c : Char} {bytes : List UInt8} (h : c ∈ b.encodeChars bytes) :
    (∃ n < 64, c = b.symbol n) ∨ c = '=' := by
  obtain ⟨ns, k, hchars, hns⟩ := b.exists_symbols bytes
  rw [hchars] at h
  rcases List.mem_append.mp h with h | h
  · obtain ⟨n, hn, rfl⟩ := List.mem_map.mp h
    exact .inl ⟨n, hns n hn, rfl⟩
  · exact .inr (mem_padding h)

/-- The octets of a text in Base64 are its characters. -/
theorem encodeChars_octets (hb : b.Reads) {cs : List Char}
    (h : ∀ c ∈ cs, (∃ n < 64, c = b.symbol n) ∨ c = '=') : Utf8.encodeChars cs = octets cs := by
  refine Utf8.encodeChars_ascii fun c hc => ?_
  rcases h c hc with ⟨n, hn, rfl⟩ | rfl
  · exact (hb n hn).2.1
  · decide

/-- What was encoded is read back from the octets of its text. -/
theorem decode_text (hb : b.Reads) (bytes : List UInt8) :
    b.decode (Utf8.encodeChars (b.encodeChars bytes)) = .ok bytes := by
  rw [encodeChars_octets hb fun c hc => mem_encodeChars hc, decode_encodeChars hb]

theorem point_ne_symbol : ∀ n < 64, urlSafe.symbol n ≠ '.' := by decide +kernel

theorem point_notMem (hb : ∀ n < 64, b.symbol n ≠ '.') (bytes : List UInt8) :
    '.' ∉ b.encodeChars bytes := by
  intro h
  rcases mem_encodeChars h with ⟨n, hn, he⟩ | he
  · exact hb n hn he.symm
  · cases he

end GroupCalendar.Base64
