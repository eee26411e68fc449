import GroupCalendar.Url.Form
import GroupCalendar.Proofs.Text.Split
import GroupCalendar.Proofs.Url.Percent

/-! # Reading back form data

Names and values are read back from the query that is written for them: none of the separators is
written for an octet, and the plus sign stands for the space alone.
-/

namespace GroupCalendar.Form

open Text

variable {b : UInt8} {c : Char} {s : String}

/-- The signs that are written for octets, besides letters and digits. -/
def signs : List Char := ['*', '-', '.', '_', '+', '%']

/-- An octet of a text in a query, where a plus sign stands for the space. -/
def plain (b : UInt8) : UInt8 := if b = 0x2B then 0x20 else b

/-- An octet is written as its own character, as a plus sign, or percent encoded. -/
inductive Writes : UInt8 → List Char → Prop
  | kept (c : Char) (ascii : c.toNat < 0x80) (kept : c ∈ ['*', '-', '.', '_'] ∨ c.isAlphanum) :
      Writes (.ofNat c.toNat) [c]
  | space : Writes 0x20 ['+']
  | encoded (b : UInt8) : Writes b (Percent.encodeOctet b)

theorem writes_encodeOctet (b : UInt8) : Writes b (encodeOctet b) := by
  unfold encodeOctet
  dsimp only
  split
  · next h =>
    rw [Bool.and_eq_true, Bool.or_eq_true, decide_eq_true_eq, List.contains_iff_mem] at h
    obtain ⟨hascii, hkept⟩ := h
    have hcode : (Char.ofNat b.toNat).toNat = b.toNat :=
      Utf8.toNat_charOfNat (.inl (Nat.lt_trans hascii (by decide)))
    have hkept := Writes.kept (Char.ofNat b.toNat) (hcode.trans_lt hascii) hkept.symm
    rwa [hcode, UInt8.ofNat_toNat] at hkept
  · split
    · next h =>
      subst h
      exact .space
    · exact .encoded b

theorem Writes.mem {cs : List Char} (h : Writes b cs) (hc : c ∈ cs) :
    c.toNat < 0x80 ∧ (c ∈ signs ∨ c.isAlphanum) := by
  cases h with
  | kept _ ascii kept =>
    obtain rfl := List.mem_singleton.mp hc
    exact ⟨ascii, kept.imp_left fun hsign => List.mem_append_left ['+', '%'] hsign⟩
  | space =>
    obtain rfl := List.mem_singleton.mp hc
    decide
  | encoded =>
    rcases Percent.mem_encodeOctet hc with rfl | ⟨hascii, hdigit⟩
    · decide
    · exact ⟨hascii, .inr hdigit⟩

theorem encodeChars_encodeOctet (b : UInt8) :
    Utf8.encodeChars (encodeOctet b) = (encodeOctet b).map fun c => .ofNat c.toNat :=
  Utf8.encodeChars_ascii fun _ hc => ((writes_encodeOctet b).mem hc).1

/-- One octet is read back, whatever stands behind it. -/
theorem decodeOctets_encodeOctet (b : UInt8) (rest : List UInt8) :
    Percent.decodeOctets ((Utf8.encodeChars (encodeOctet b)).map plain ++ rest) =
      b :: Percent.decodeOctets rest := by
  rw [encodeChars_encodeOctet]
  have hwrites := writes_encodeOctet b
  generalize encodeOctet b = cs at hwrites
  cases hwrites with
  | kept c ascii kept =>
    have hplus : c ≠ '+' := by
      rintro rfl
      revert kept
      decide
    have hpercent : c ≠ '%' := by
      rintro rfl
      revert kept
      decide
    have hplain : plain (.ofNat c.toNat) = .ofNat c.toNat :=
      if_neg (Utf8.ofNat_ne ascii (by decide) hplus)
    rw [List.map_singleton, List.map_singleton, hplain, List.singleton_append,
      Percent.decodeOctets_of_ne (Utf8.ofNat_ne ascii (by decide) hpercent)]
  | space => exact Percent.decodeOctets_of_ne (by decide)
  | encoded =>
    have hplain : ((Percent.encodeOctet b).map fun c => UInt8.ofNat c.toNat).map plain =
        (Percent.encodeOctet b).map fun c => .ofNat c.toNat := by
      rw [List.map_map]
      refine List.map_congr_left fun c hc => if_neg ?_
      rcases Percent.mem_encodeOctet hc with rfl | ⟨hascii, hdigit⟩
      · decide
      · refine Utf8.ofNat_ne hascii (by decide) (d := '+') ?_
        rintro rfl
        cases hdigit
    rw [hplain, Percent.decodeOctets_encodeOctet]

theorem decodeText_encodeText (s : String) : decodeText (Utf8.encodeChars (encodeText s)) = s := by
  have hoctets : ∀ bytes, Percent.decodeOctets
      ((Utf8.encodeChars (bytes.flatMap encodeOctet)).map plain) = bytes := by
    intro bytes
    induction bytes with
    | nil => rfl
    | cons b bytes ih =>
      rw [List.flatMap_cons, Utf8.encodeChars_append, List.map_append, decodeOctets_encodeOctet, ih]
  change Utf8.decodeLossy (Percent.decodeOctets ((Utf8.encodeChars (encodeText s)).map plain)) = s
  rw [encodeText, hoctets, Utf8.decodeLossy_encode]

theorem mem_encodeText (h : c ∈ encodeText s) : c.toNat < 0x80 ∧ (c ∈ signs ∨ c.isAlphanum) := by
  obtain ⟨b, -, hc⟩ := List.mem_flatMap.mp h
  exact (writes_encodeOctet b).mem hc

/-- A separator does not stand in a name or value. -/
theorem notMem_encodeText {sep : Char} (hsign : sep ∉ signs) (hdigit : sep.isAlphanum = false) :
    sep ∉ encodeText s := by
  intro h
  rcases (mem_encodeText h).2 with h | h
  · exact hsign h
  · rw [hdigit] at h
    cases h

theorem ascii_encodePair {pair : String × String} (h : c ∈ encodePair pair) : c.toNat < 0x80 := by
  rcases List.mem_append.mp h with h | h
  · exact (mem_encodeText h).1
  · rcases List.mem_cons.mp h with rfl | h
    · decide
    · exact (mem_encodeText h).1

theorem notMem_encodePair {sep : Char} (hsign : sep ∉ signs) (hdigit : sep.isAlphanum = false)
    (hne : sep ≠ '=') (pair : String × String) : sep ∉ encodePair pair := by
  rw [encodePair, List.mem_append, List.mem_cons, not_or, not_or]
  exact ⟨notMem_encodeText hsign hdigit, hne, notMem_encodeText hsign hdigit⟩

/-- The octet of a character stands in an encoded text only where the character does. -/
theorem ofNat_notMem (sep : Char) {cs : List Char} (hascii : ∀ c ∈ cs, c.toNat < 0x80)
    (hsep : sep.toNat < 0x80) (h : sep ∉ cs) : UInt8.ofNat sep.toNat ∉ Utf8.encodeChars cs := by
  rw [Utf8.encodeChars_ascii hascii]
  intro hmem
  obtain ⟨c, hc, he⟩ := List.mem_map.mp hmem
  refine Utf8.ofNat_ne (hascii c hc) hsep ?_ he
  rintro rfl
  exact h hc

theorem decodePair_encodePair (pair : String × String) :
    decodePair (Utf8.encodeChars (encodePair pair)) = pair := by
  have hname : (0x3D : UInt8) ∉ Utf8.encodeChars (encodeText pair.1) :=
    ofNat_notMem '=' (fun _ hc => (mem_encodeText hc).1) (by decide)
      (notMem_encodeText (by decide) (by decide))
  have hparts : Utf8.encodeChars (encodePair pair) = Utf8.encodeChars (encodeText pair.1) ++
      0x3D :: Utf8.encodeChars (encodeText pair.2) := by
    rw [encodePair, Utf8.encodeChars_append, Utf8.encodeChars_cons]
    rfl
  rw [decodePair, hparts, cutAt_append hname]
  dsimp only
  rw [decodeText_encodeText, decodeText_encodeText]

theorem encodeChars_encodePair_ne_nil (pair : String × String) :
    Utf8.encodeChars (encodePair pair) ≠ [] := by
  rw [Utf8.encodeChars_ascii fun _ => ascii_encodePair, encodePair]
  simp

/-- A query is read as the names and values that it was written for. -/
theorem decode_encode (pairs : List (String × String)) :
    decode (Utf8.encodeChars (encode pairs)) = pairs := by
  cases pairs with
  | nil => rfl
  | cons pair rest =>
    generalize hpairs : pair :: rest = pairs
    have hsep : Utf8.encodeChar '&' = [0x26] := rfl
    have hjoined : Utf8.encodeChars (encode pairs) =
        joinWith 0x26 (pairs.map fun pair => Utf8.encodeChars (encodePair pair)) := by
      rw [encode, Utf8.encodeChars, flatMap_joinWith Utf8.encodeChar hsep, List.map_map]
      rfl
    have hsplit : splitAt 0x26 (Utf8.encodeChars (encode pairs)) =
        pairs.map fun pair => Utf8.encodeChars (encodePair pair) := by
      rw [hjoined]
      refine splitAt_joinWith (by simp [← hpairs]) ?_
      rintro _ hpart
      obtain ⟨pair, -, rfl⟩ := List.mem_map.mp hpart
      exact ofNat_notMem '&' (fun _ => ascii_encodePair) (by decide)
        (notMem_encodePair (by decide) (by decide) (by decide) pair)
    have hnonempty : ∀ part ∈ pairs.map fun pair => Utf8.encodeChars (encodePair pair),
        (!part.isEmpty) = true := by
      rintro _ hpart
      obtain ⟨pair, -, rfl⟩ := List.mem_map.mp hpart
      simpa using encodeChars_encodePair_ne_nil pair
    rw [decode, hsplit, List.filter_eq_self.mpr hnonempty, List.map_map]
    exact List.map_id'' decodePair_encodePair pairs

theorem notMem_encode (pairs : List (String × String)) : '#' ∉ encode pairs := by
  intro h
  rcases mem_joinWith h with h | ⟨part, hpart, hc⟩
  · cases h
  · obtain ⟨pair, -, rfl⟩ := List.mem_map.mp hpart
    exact notMem_encodePair (by decide) (by decide) (by decide) pair hc

end GroupCalendar.Form
