import GroupCalendar.Crypto.Pem
import GroupCalendar.Proofs.Encoding.Base64

/-! # Reading back PEM texts

A mark is found where its first octet does not stand before it. So octets that are written in one
line between two lines with a label are read back.
-/

namespace GroupCalendar.Pem

open Text

variable {m : UInt8} {mark before rest text : List UInt8}

/-- The octets of a mark are taken one by one. -/
theorem go_owed (mark owed before rest : List UInt8) :
    cutAtMark.go mark owed before (owed ++ rest) =
      some (((owed.reverse ++ before).drop mark.length).reverse, rest) := by
  induction owed generalizing before with
  | nil => cases rest <;> rfl
  | cons m owed ih =>
    rw [List.cons_append, cutAtMark.go, if_pos rfl, ih]
    simp

theorem go_of_notMem (h : m ∉ text) :
    cutAtMark.go (m :: mark) (m :: mark) before (text ++ rest) =
      cutAtMark.go (m :: mark) (m :: mark) (text.reverse ++ before) rest := by
  induction text generalizing before with
  | nil => rfl
  | cons b text ih =>
    rw [List.mem_cons, not_or] at h
    rw [List.cons_append, cutAtMark.go, if_neg (Ne.symm h.1), ih h.2]
    simp

/-- A mark is found behind a text without its first octet. -/
theorem cutAtMark_append (hm : mark.head? = some m) (h : m ∉ text) :
    cutAtMark mark (text ++ (mark ++ rest)) = some (text, rest) := by
  obtain ⟨mark, rfl⟩ := List.head?_eq_some_iff.mp hm
  rw [cutAtMark, go_of_notMem h, go_owed, List.append_nil, List.drop_left' (by simp),
    List.reverse_reverse]

theorem cutAtMark_of_notMem (hm : mark.head? = some m) (h : m ∉ text) :
    cutAtMark mark text = none := by
  obtain ⟨mark, rfl⟩ := List.head?_eq_some_iff.mp hm
  have hgo : cutAtMark.go (m :: mark) (m :: mark) [] (text ++ []) = none := by
    rw [go_of_notMem h]
    rfl
  rwa [List.append_nil] at hgo

/-- A single line is not followed by an empty one. -/
theorem cutHeaders_line (hn : 0x0A ∉ text) (hr : 0x0D ∉ text) :
    cutHeaders (text ++ [0x0A]) = ([], text ++ [0x0A]) := by
  have hempty : cutAtMark [0x0A, 0x0A] (text ++ [0x0A]) = none := by
    rw [cutAtMark, go_of_notMem hn]
    rfl
  have hempty' : cutAtMark [0x0D, 0x0A, 0x0D, 0x0A] (text ++ [0x0A]) = none :=
    cutAtMark_of_notMem (m := 0x0D) rfl (by simp [hr])
  rw [cutHeaders, hempty, hempty']
  rfl

section Symbols

theorem reads_standard : Base64.standard.Reads := by decide +kernel

/-- No symbol is a blank. -/
theorem isBlank_standard {c : Char} (h : (∃ n < 64, c = Base64.standard.symbol n) ∨ c = '=') :
    isBlank c = false := by
  have hsymbols : ∀ n < 64, isBlank (Base64.standard.symbol n) = false := by decide +kernel
  obtain ⟨n, hn, rfl⟩ | rfl := h
  · exact hsymbols n hn
  · rfl

/-- The octets of a dash, of the ends of lines and of blanks. -/
def marks : List UInt8 := [0x2D, 0x0A, 0x0D, 0x20, 0x09]

/-- The octets of symbols are none of these. -/
theorem notMem_symbols {b : UInt8} {contents : List UInt8} (hb : b ∈ marks) :
    b ∉ Base64.octets (Base64.standard.encodeChars contents) := by
  have hsymbols : ∀ n < 64, UInt8.ofNat (Base64.standard.symbol n).toNat ∉ marks := by
    decide +kernel
  intro h
  obtain ⟨c, hc, rfl⟩ := List.mem_map.mp h
  obtain ⟨n, hn, rfl⟩ | rfl := Base64.mem_encodeChars hc
  · exact hsymbols n hn hb
  · exact absurd hb (by decide)

end Symbols

/-- The octets of a text in one line. -/
def line (contents : List UInt8) : List UInt8 :=
  Base64.octets (Base64.standard.encodeChars contents) ++ [0x0A]

/-- A text with its octets in one line. -/
def toText (p : Pem) : List UInt8 :=
  Utf8.encode "-----BEGIN " ++ (Utf8.encode p.label ++ (Utf8.encode "-----" ++
    (0x0A :: (line p.contents ++
      (Utf8.encode "-----END " ++ (Utf8.encode p.label ++ (Utf8.encode "-----" ++ [])))))))

theorem dropWhile_line {contents : List UInt8} (hc : contents ≠ []) :
    (0x0A :: (line contents ++ rest)).dropWhile isSpace = line contents ++ rest := by
  obtain ⟨x, contents, rfl⟩ := List.exists_cons_of_ne_nil hc
  have hne : Base64.octets (Base64.standard.encodeChars (x :: contents)) ≠ [] :=
    fun h => Base64.encodeChars_ne_nil (List.map_eq_nil_iff.mp h)
  obtain ⟨b, symbols, hb⟩ := List.exists_cons_of_ne_nil hne
  have hspace : isSpace b = false := by
    rw [← Bool.not_eq_true]
    intro h
    refine notMem_symbols (b := b) ?_ (hb ▸ List.mem_cons_self)
    simp only [isSpace, Bool.or_eq_true, decide_eq_true_eq] at h
    obtain ((rfl | rfl) | rfl) | rfl := h <;> decide
  rw [line, hb]
  simp [hspace, show isSpace 0x0A = true from rfl]

/-- The line is read as the octets and the end of the line, which is a blank. -/
theorem read_line (contents : List UInt8) :
    ∃ data, Utf8.decodeChars? (line contents) = some data ∧
      Base64.standard.decode (Utf8.encodeChars (data.filter fun c => !isBlank c)) =
        .ok contents := by
  have hplain : ∀ c ∈ Base64.standard.encodeChars contents,
      (∃ n < 64, c = Base64.standard.symbol n) ∨ c = '=' := fun c => Base64.mem_encodeChars
  have hoctets := Base64.encodeChars_octets reads_standard hplain
  have hline : line contents =
      Utf8.encodeChars (Base64.standard.encodeChars contents ++ ['\n']) := by
    rw [line, ← hoctets, Utf8.encodeChars, Utf8.encodeChars, List.flatMap_append]
    rfl
  refine ⟨Base64.standard.encodeChars contents ++ ['\n'], ?_, ?_⟩
  · rw [hline, Utf8.decodeChars?, Utf8.decodeFrom?_encodeChars]
  · rw [List.filter_append, List.filter_eq_self.mpr fun c hc => ?_]
    · rw [show ['\n'].filter (fun c => !isBlank c) = [] from rfl, List.append_nil, hoctets,
        Base64.decode_encodeChars reads_standard]
    · rw [isBlank_standard (hplain c hc)]
      rfl

theorem parse?_toText {p : Pem} (hlabel : p.label ≠ "") (hd : 0x2D ∉ Utf8.encode p.label)
    (hc : p.contents ≠ []) : parse? p.toText = some p := by
  obtain ⟨label, contents⟩ := p
  have hbegin (rest : List UInt8) :
      cutAtMark (Utf8.encode "-----BEGIN ") (Utf8.encode "-----BEGIN " ++ rest) = some ([], rest) :=
    cutAtMark_append (m := 0x2D) rfl List.not_mem_nil
  have hfirst (rest : List UInt8) : cutAtMark (Utf8.encode "-----")
      (Utf8.encode label ++ (Utf8.encode "-----" ++ rest)) = some (Utf8.encode label, rest) :=
    cutAtMark_append (m := 0x2D) rfl hd
  have hbody (rest : List UInt8) : cutAtMark (Utf8.encode "-----END ")
      (line contents ++ (Utf8.encode "-----END " ++ rest)) = some (line contents, rest) := by
    refine cutAtMark_append (m := 0x2D) rfl ?_
    simp [line, notMem_symbols (b := 0x2D) (by decide)]
  have hheaders : cutHeaders (line contents) = ([], line contents) :=
    cutHeaders_line (notMem_symbols (by decide)) (notMem_symbols (by decide))
  obtain ⟨data, hdata, hdecode⟩ := read_line contents
  simp only [parse?, toText, hbegin, hfirst, dropWhile_line hc, hbody, hheaders, hdata,
    Option.bind_eq_bind, Option.bind_some, Utf8.decode?_encode, hdecode]
  have hempty : Utf8.decode? [] = some "" := rfl
  have hnone : areHeaders "" = true := by decide
  have hnamed : label.isEmpty = false := by simpa using hlabel
  simp [hempty, hnone, hnamed, Except.toOption]

end GroupCalendar.Pem
