import GroupCalendar.Proofs.Json.Scanned
import GroupCalendar.Proofs.Store.Contents

/-! # Reading back JSON values

A value without fractions whose objects are in order is read back from its octets, if it is not
nested too deep. The text of each part is followed by what closes the part around it, and the parts
of lists and objects are read one after another.
-/

namespace GroupCalendar

namespace Fields

variable {α : Type}

theorem insert_of_forall_lt {fs : Fields α} {name : String} (h : ∀ f ∈ fs, f.1 < name)
    (value : α) : fs.insert name value = fs ++ [(name, value)] := by
  induction fs with
  | nil => rfl
  | cons f rest ih =>
    obtain ⟨hlt, hrest⟩ := List.forall_mem_cons.mp h
    obtain ⟨k, v⟩ := f
    have hlt : k < name := hlt
    rw [insert, if_neg fun he => String.lt_irrefl _ (he ▸ hlt),
      if_neg fun hgt => String.lt_irrefl _ (String.lt_trans hlt hgt), ih hrest]
    rfl

/-- Fields in order are added one behind the other. -/
theorem overlay_of_sorted {fs later : Fields α} (h : Sorted (fs ++ later)) :
    fs.overlay later = fs ++ later := by
  induction later generalizing fs with
  | nil => exact (List.append_nil fs).symm
  | cons f rest ih =>
    have hlast : fs.insert f.1 f.2 = fs ++ [f] := insert_of_forall_lt (fun g hg =>
      (List.pairwise_append.mp h).2.2 g hg f List.mem_cons_self) f.2
    rw [List.append_cons] at h ⊢
    change (fs.insert f.1 f.2).overlay rest = _
    rw [hlast, ih h]

end Fields

namespace Json

open Text.Utf8

/-- A value without fractions, with its objects in order and nested at most so many times. -/
inductive Plain : Nat → Json → Prop
  | null {d : Nat} : Plain d .null
  | bool {d : Nat} (b : Bool) : Plain d (.bool b)
  | integer {d : Nat} {n : Int} (h : isIntegral n = true) : Plain d (.integer n)
  | string {d : Nat} (s : String) : Plain d (.string s)
  | array {d : Nat} {elements : List Json} (h : ∀ x ∈ elements, Plain d x) :
    Plain (d + 1) (.array elements)
  | object {d : Nat} {members : Fields Json} (hs : members.Sorted)
    (h : ∀ f ∈ members, Plain d f.2) : Plain (d + 1) (.object members)

variable {d depth fuel n : Nat} {x : Json} {rest : List UInt8}

section Texts

theorem encode_string (s : String) : (Json.string s).encode =
    0x22 :: (encodeChars (s.toList.flatMap escapeChar) ++ [0x22]) := by
  rw [encode, printChars, quote, List.cons_append, encodeChars_cons, encodeChars_append]
  rfl

theorem encode_integer_of_neg {k : Int} (hk : k < 0) :
    (Json.integer k).encode = 0x2D :: encodeChars (Nat.toDigits 10 k.natAbs) := by
  rw [encode, printChars, integerText, if_pos hk, encodeChars_cons]
  rfl

theorem encode_integer_of_nonneg {k : Int} (hk : 0 ≤ k) :
    (Json.integer k).encode = encodeChars (Nat.toDigits 10 k.natAbs) := by
  rw [encode, printChars, integerText, if_neg (Int.not_lt.mpr hk)]

/-- A number starts with a digit. -/
theorem exists_encodeChars_toDigits (k : Nat) : ∃ b text v,
    encodeChars (Nat.toDigits 10 k) = b :: text ∧ octetDigit? b = some v := by
  cases hdigits : Nat.toDigits 10 k with
  | nil => exact absurd hdigits Nat.toDigits_ne_nil
  | cons c cs =>
    have hc : c.isDigit = true := Nat.isDigit_of_mem_toDigits (b := 10) (n := k) (by decide)
      (Nat.le_refl 10) (hdigits ▸ List.mem_cons_self)
    obtain ⟨hdigit, hascii⟩ := octetDigit?_ofNat hc
    refine ⟨_, encodeChars cs, _, ?_, hdigit⟩
    rw [encodeChars_cons, encodeChar_ascii hascii]
    rfl

/-- The octets of a member. -/
def encodeMember (f : String × Json) : List UInt8 :=
  (Json.string f.1).encode ++ 0x3A :: f.2.encode

theorem encode_array (xs : List Json) :
    (Json.array (x :: xs)).encode =
      0x5B :: (x.encode ++ (xs.flatMap (0x2C :: ·.encode) ++ [0x5D])) := by
  have helements : ∀ x : Json, encodeChars (printElements (x :: xs)) =
      x.encode ++ xs.flatMap (0x2C :: ·.encode) := by
    induction xs with
    | nil =>
      intro x
      rw [printElements, List.flatMap_nil, List.append_nil]
      rfl
    | cons y xs ih =>
      intro x
      rw [printElements, encodeChars_append, encodeChars_cons, ih, List.flatMap_cons]
      · rfl
      · exact nofun
  rw [encode, printChars, List.cons_append, encodeChars_cons, encodeChars_append, helements,
    List.append_assoc]
  rfl

theorem encode_object (f : String × Json) (fs : Fields Json) :
    (Json.object (f :: fs)).encode =
      0x7B :: (encodeMember f ++ (fs.flatMap (0x2C :: encodeMember ·) ++ [0x7D])) := by
  have hmember : ∀ f : String × Json,
      encodeChars (quote f.1 ++ ':' :: printChars f.2) = encodeMember f := by
    intro f
    rw [encodeChars_append, encodeChars_cons]
    rfl
  have hmembers : ∀ f : String × Json, encodeChars (printMembers (f :: fs)) =
      encodeMember f ++ fs.flatMap (0x2C :: encodeMember ·) := by
    induction fs with
    | nil =>
      intro f
      rw [printMembers, List.flatMap_nil, List.append_nil, hmember]
    | cons g fs ih =>
      intro f
      rw [printMembers, encodeChars_append, hmember, encodeChars_cons, ih, List.flatMap_cons]
      · rfl
      · exact nofun
  rw [encode, printChars, List.cons_append, encodeChars_cons, encodeChars_append, hmembers,
    List.append_assoc]
  rfl

end Texts

section Parsing

/-- A value is read back from its octets, whatever closes the part around it. The fuel is enough if
there are two units of it for each octet. -/
def ReadsBack (depth : Nat) (x : Json) : Prop :=
  ∀ fuel rest, 2 * x.encode.length ≤ fuel → Closes rest →
    Scans (parseValue fuel depth) x.encode x rest

theorem skipSpace_cons {b : UInt8} (h : isSpace b = false) :
    skipSpace ⟨b :: rest, n⟩ = ⟨b :: rest, n⟩ := by
  rw [skipSpace, skipSpace.go, if_neg (by simp [h])]

theorem ne_of_digit {b b' : UInt8} {v : Nat} (h : octetDigit? b = some v)
    (h' : octetDigit? b' = none) : b ≠ b' := by
  rintro rfl
  rw [h] at h'
  cases h'

theorem isSpace_of_digit {b : UInt8} {v : Nat} (h : octetDigit? b = some v) :
    isSpace b = false := by
  simp only [isSpace, Bool.or_eq_false_iff, decide_eq_false_iff_not]
  exact ⟨⟨⟨ne_of_digit h rfl, ne_of_digit h rfl⟩, ne_of_digit h rfl⟩, ne_of_digit h rfl⟩

/-- The first octet of a value, which is neither a space nor a closing bracket. -/
theorem Plain.exists_encode (h : Plain d x) :
    ∃ b text, x.encode = b :: text ∧ isSpace b = false ∧ b ≠ 0x5D := by
  cases h with
  | null => exact ⟨0x6E, _, rfl, rfl, by decide⟩
  | bool b =>
    cases b with
    | true => exact ⟨0x74, _, rfl, rfl, by decide⟩
    | false => exact ⟨0x66, _, rfl, rfl, by decide⟩
  | @integer _ k hk =>
    rcases Int.lt_or_le k 0 with hneg | hpos
    · exact ⟨0x2D, _, encode_integer_of_neg hneg, rfl, by decide⟩
    · obtain ⟨b, text, v, htext, hdigit⟩ := exists_encodeChars_toDigits k.natAbs
      exact ⟨b, text, (encode_integer_of_nonneg hpos).trans htext, isSpace_of_digit hdigit,
        ne_of_digit hdigit rfl⟩
  | string s => exact ⟨0x22, _, encode_string s, rfl, by decide⟩
  | array h => exact ⟨0x5B, _, rfl, rfl, by decide⟩
  | object hs h => exact ⟨0x7B, _, rfl, rfl, by decide⟩

theorem scanElementStart_first (h : Plain d x) :
    scanElementStart true ⟨x.encode ++ rest, n⟩ = .ok (.item ⟨x.encode ++ rest, n⟩) := by
  obtain ⟨b, text, htext, hspace, hclose⟩ := h.exists_encode
  rw [htext, List.cons_append, scanElementStart, skipSpace_cons hspace]
  dsimp only
  split
  · next he => cases he
  · next he => exact absurd (List.cons.inj he).1 hclose
  · rfl

theorem scanElementStart_comma (h : Plain d x) :
    scanElementStart false ⟨0x2C :: (x.encode ++ rest), n⟩ =
      .ok (.item ⟨x.encode ++ rest, n + 1⟩) := by
  obtain ⟨b, text, htext, hspace, hclose⟩ := h.exists_encode
  have hskip : skipSpace (Cursor.skip ⟨0x2C :: b :: (text ++ rest), n⟩ 1) =
      ⟨b :: (text ++ rest), n + 1⟩ := skipSpace_cons hspace
  rw [htext, List.cons_append, scanElementStart, skipSpace_cons rfl]
  change (if false = true then _ else if (0x2C : UInt8) = 0x2C then _ else _) = _
  rw [if_neg Bool.false_ne_true, if_pos rfl, hskip]
  dsimp only
  split
  · next he => cases he
  · next he => exact absurd (List.cons.inj he).1 hclose
  · rfl

theorem encodeMember_eq (f : String × Json) : encodeMember f =
    0x22 :: (encodeChars (f.1.toList.flatMap escapeChar) ++ [0x22] ++ 0x3A :: f.2.encode) := by
  rw [encodeMember, encode_string]
  rfl

theorem scanMemberStart_first (f : String × Json) :
    scanMemberStart true ⟨encodeMember f ++ rest, n⟩ =
      .ok (.item ⟨(encodeMember f).tail ++ rest, n + 1⟩) := by
  rw [encodeMember_eq]
  rfl

theorem scanMemberStart_comma (f : String × Json) :
    scanMemberStart false ⟨0x2C :: (encodeMember f ++ rest), n⟩ =
      .ok (.item ⟨(encodeMember f).tail ++ rest, n + 2⟩) := by
  rw [encodeMember_eq]
  rfl

/-- One element and the elements behind it. -/
theorem parseElements_item {first : Bool} {xs : List Json} {c c₁ c₂ c₃ : Cursor}
    (hstart : scanElementStart first c = .ok (.item c₁))
    (hvalue : parseValue fuel depth c₁ = .ok (x, c₂))
    (hrest : parseElements fuel depth false c₂ = .ok (xs, c₃)) :
    parseElements (fuel + 1) depth first c = .ok (x :: xs, c₃) := by
  rw [parseElements, hstart]
  change (parseValue fuel depth c₁ >>= _) = _
  rw [hvalue]
  change (parseElements fuel depth false c₂ >>= _) = _
  rw [hrest]
  rfl

/-- One member and the members behind it. -/
theorem parseMembers_item {first : Bool} {name : String} {members members' : Fields Json}
    {c c₁ c₂ c₃ c₄ c₅ : Cursor} (hstart : scanMemberStart first c = .ok (.item c₁))
    (hname : scanString c₁ = .ok (name, c₂)) (hcolon : scanColon c₂ = .ok ((), c₃))
    (hvalue : parseValue fuel depth c₃ = .ok (x, c₄))
    (hrest : parseMembers fuel depth false (members.insert name x) c₄ = .ok (members', c₅)) :
    parseMembers (fuel + 1) depth first members c = .ok (members', c₅) := by
  rw [parseMembers, hstart]
  change (scanString c₁ >>= _) = _
  rw [hname]
  change (scanColon c₂ >>= _) = _
  rw [hcolon]
  change (parseValue fuel depth c₃ >>= _) = _
  rw [hvalue]
  exact hrest

theorem closes_flatMap {α : Type} (f : α → List UInt8) (xs : List α) {b : UInt8}
    (hb : b = 0x5D ∨ b = 0x7D) : Closes (xs.flatMap (0x2C :: f ·) ++ b :: rest) := by
  cases xs with
  | nil =>
    rintro _ ⟨⟩
    exact .inr hb
  | cons x xs =>
    rintro _ ⟨⟩
    exact .inl rfl

/-- An element is read, and those behind it. -/
theorem parseElements_element {first : Bool} {xs : List Json} {c : Cursor} {more : List UInt8}
    (hread : ReadsBack depth x) (hfuel : 2 * x.encode.length ≤ fuel) (hmore : Closes more)
    (hstart : scanElementStart first c = .ok (.item ⟨x.encode ++ more, n⟩))
    (hrest : ∀ n, ∃ n', parseElements fuel depth false ⟨more, n⟩ = .ok (xs, ⟨rest, n'⟩)) :
    ∃ n', parseElements (fuel + 1) depth first c = .ok (x :: xs, ⟨rest, n'⟩) := by
  obtain ⟨n₁, hvalue⟩ := hread fuel more hfuel hmore n
  obtain ⟨n₂, hrest⟩ := hrest n₁
  exact ⟨n₂, parseElements_item hstart hvalue hrest⟩

/-- The elements behind the first one are read back up to the closing bracket. -/
theorem exists_parseElements {xs : List Json} (hplain : ∀ x ∈ xs, Plain d x)
    (hread : ∀ x ∈ xs, ReadsBack depth x) (rest : List UInt8)
    (hfuel : 2 * (xs.flatMap (0x2C :: ·.encode)).length < fuel) (n : Nat) :
    ∃ n', parseElements fuel depth false ⟨xs.flatMap (0x2C :: ·.encode) ++ 0x5D :: rest, n⟩ =
      .ok (xs, ⟨rest, n'⟩) := by
  induction xs generalizing fuel n with
  | nil =>
    obtain ⟨fuel, rfl⟩ := Nat.exists_eq_add_of_le' hfuel
    exact ⟨n + 1, rfl⟩
  | cons x xs ih =>
    obtain ⟨hx, hplain⟩ := List.forall_mem_cons.mp hplain
    obtain ⟨hxread, hread⟩ := List.forall_mem_cons.mp hread
    obtain ⟨fuel, rfl⟩ := Nat.exists_eq_add_of_le' (Nat.zero_lt_of_lt hfuel)
    rw [List.flatMap_cons, List.length_append, List.length_cons] at hfuel
    -- The comma pays for the step to the value and for the one to the elements behind it.
    have hless : 2 * (xs.flatMap (0x2C :: ·.encode)).length < fuel := by omega
    rw [List.flatMap_cons, List.append_assoc, List.cons_append]
    exact parseElements_element hxread (by omega) (closes_flatMap _ xs (.inl rfl))
      (scanElementStart_comma hx) (ih hplain hread hless)

/-- A member is read from behind the quote of its name, and those behind it. -/
theorem parseMembers_member {first : Bool} {f : String × Json} {members members' : Fields Json}
    {c : Cursor} {more : List UInt8} (hread : ReadsBack depth f.2)
    (hfuel : 2 * (encodeMember f).length ≤ fuel) (hmore : Closes more)
    (hstart : scanMemberStart first c = .ok (.item ⟨(encodeMember f).tail ++ more, n⟩))
    (hrest : ∀ n, ∃ n', parseMembers fuel depth false (members.insert f.1 f.2) ⟨more, n⟩ =
      .ok (members', ⟨rest, n'⟩)) :
    ∃ n', parseMembers (fuel + 1) depth first members c = .ok (members', ⟨rest, n'⟩) := by
  rw [encodeMember_eq, List.tail_cons, List.append_assoc] at hstart
  rw [encodeMember, List.length_append, List.length_cons] at hfuel
  have hfits : 2 * f.2.encode.length ≤ fuel := by omega
  obtain ⟨n₁, hname⟩ := scans_string f.1 (0x3A :: f.2.encode ++ more) n
  obtain ⟨n₂, hvalue⟩ := hread fuel more hfits hmore (n₁ + 1)
  obtain ⟨n₃, hrest⟩ := hrest n₂
  exact ⟨n₃, parseMembers_item hstart hname rfl hvalue hrest⟩

/-- The members behind the first one are read back up to the closing brace, behind those that were
read before. -/
theorem exists_parseMembers {fs : Fields Json} (hread : ∀ f ∈ fs, ReadsBack depth f.2)
    (members : Fields Json) (rest : List UInt8)
    (hfuel : 2 * (fs.flatMap (0x2C :: encodeMember ·)).length < fuel) (n : Nat) :
    ∃ n', parseMembers fuel depth false members
        ⟨fs.flatMap (0x2C :: encodeMember ·) ++ 0x7D :: rest, n⟩ =
      .ok (members.overlay fs, ⟨rest, n'⟩) := by
  induction fs generalizing fuel members n with
  | nil =>
    obtain ⟨fuel, rfl⟩ := Nat.exists_eq_add_of_le' hfuel
    exact ⟨n + 1, rfl⟩
  | cons f fs ih =>
    obtain ⟨hf, hread⟩ := List.forall_mem_cons.mp hread
    obtain ⟨fuel, rfl⟩ := Nat.exists_eq_add_of_le' (Nat.zero_lt_of_lt hfuel)
    rw [List.flatMap_cons, List.length_append, List.length_cons] at hfuel
    have hless : 2 * (fs.flatMap (0x2C :: encodeMember ·)).length < fuel := by omega
    rw [List.flatMap_cons, List.append_assoc, List.cons_append]
    exact parseMembers_member hf (by omega) (closes_flatMap _ fs (.inr rfl))
      (scanMemberStart_comma f) (ih hread (members.insert f.1 f.2) hless)

section Values

variable {c : Cursor}

theorem parseValue_string {s : String} (h : scanString ⟨rest, n + 1⟩ = .ok (s, c)) :
    parseValue (fuel + 1) depth ⟨0x22 :: rest, n⟩ = .ok (.string s, c) := by
  rw [parseValue]
  change (scanString ⟨rest, n + 1⟩ >>= _) = _
  rw [h]
  rfl

theorem parseValue_array {xs : List Json} (hdepth : 1 < depth)
    (h : parseElements fuel (depth - 1) true ⟨rest, n + 1⟩ = .ok (xs, c)) :
    parseValue (fuel + 1) depth ⟨0x5B :: rest, n⟩ = .ok (.array xs, c) := by
  rw [parseValue]
  change (if depth ≤ 1 then _ else (parseElements fuel (depth - 1) true ⟨rest, n + 1⟩ >>= _)) = _
  rw [if_neg (Nat.not_le.mpr hdepth), h]
  rfl

theorem parseValue_object {fs : Fields Json} (hdepth : 1 < depth)
    (h : parseMembers fuel (depth - 1) true [] ⟨rest, n + 1⟩ = .ok (fs, c)) :
    parseValue (fuel + 1) depth ⟨0x7B :: rest, n⟩ = .ok (.object fs, c) := by
  rw [parseValue]
  change (if depth ≤ 1 then _ else (parseMembers fuel (depth - 1) true [] ⟨rest, n + 1⟩ >>= _)) = _
  rw [if_neg (Nat.not_le.mpr hdepth), h]
  rfl

theorem parseValue_minus :
    parseValue (fuel + 1) depth ⟨0x2D :: rest, n⟩ = scanNumber false ⟨rest, n + 1⟩ := by
  rw [parseValue]
  rfl

theorem parseValue_digit {b : UInt8} {k : Nat} (h : octetDigit? b = some k) :
    parseValue (fuel + 1) depth ⟨b :: rest, n⟩ = scanNumber true ⟨b :: rest, n⟩ := by
  rw [parseValue, skipSpace_cons (isSpace_of_digit h)]
  dsimp only
  rw [if_neg (ne_of_digit h rfl), if_neg (ne_of_digit h rfl), if_neg (ne_of_digit h rfl),
    if_neg (ne_of_digit h rfl), if_pos (Option.isSome_of_eq_some h)]

theorem readsBack_null : ReadsBack depth .null := by
  intro fuel rest hfuel _ n
  obtain ⟨fuel, rfl⟩ := Nat.exists_eq_add_of_le' (Nat.le_trans (by decide) hfuel : 1 ≤ fuel)
  rw [parseValue]
  exact ⟨n + 1 + 1 + 1 + 1, rfl⟩

theorem readsBack_bool (b : Bool) : ReadsBack depth (.bool b) := by
  intro fuel rest hfuel _ n
  cases b with
  | true =>
    obtain ⟨fuel, rfl⟩ := Nat.exists_eq_add_of_le' (Nat.le_trans (by decide) hfuel : 1 ≤ fuel)
    rw [parseValue]
    exact ⟨n + 1 + 1 + 1 + 1, rfl⟩
  | false =>
    obtain ⟨fuel, rfl⟩ := Nat.exists_eq_add_of_le' (Nat.le_trans (by decide) hfuel : 1 ≤ fuel)
    rw [parseValue]
    exact ⟨n + 1 + 1 + 1 + 1 + 1, rfl⟩

theorem readsBack_integer {k : Int} (hk : isIntegral k = true) : ReadsBack depth (.integer k) := by
  intro fuel rest hfuel hrest n
  rcases Int.lt_or_le k 0 with hneg | hpos
  · have hscan := scans_integer hk hrest (n + 1)
    rw [encode_integer_of_neg hneg] at hfuel ⊢
    rw [List.length_cons] at hfuel
    obtain ⟨fuel, rfl⟩ := Nat.exists_eq_add_of_le' (by omega : 1 ≤ fuel)
    rw [List.cons_append, parseValue_minus]
    rwa [decide_eq_false (Int.not_le.mpr hneg)] at hscan
  · have hscan := scans_integer hk hrest n
    obtain ⟨b, text, v, htext, hdigit⟩ := exists_encodeChars_toDigits k.natAbs
    rw [encode_integer_of_nonneg hpos, htext] at hfuel ⊢
    rw [List.length_cons] at hfuel
    obtain ⟨fuel, rfl⟩ := Nat.exists_eq_add_of_le' (by omega : 1 ≤ fuel)
    rw [List.cons_append, parseValue_digit hdigit]
    rwa [decide_eq_true hpos, htext] at hscan

theorem readsBack_string (s : String) : ReadsBack depth (.string s) := by
  intro fuel rest hfuel _ n
  rw [encode_string] at hfuel ⊢
  rw [List.length_cons] at hfuel
  obtain ⟨fuel, rfl⟩ := Nat.exists_eq_add_of_le' (by omega : 1 ≤ fuel)
  obtain ⟨n', hscan⟩ := scans_string s rest (n + 1)
  exact ⟨n', parseValue_string hscan⟩

/-- The elements of a list are read behind its opening bracket. -/
theorem readsBack_array {xs : List Json} (hplain : ∀ x ∈ xs, Plain d x) (hdepth : 1 < depth)
    (hread : ∀ x ∈ xs, ReadsBack (depth - 1) x) : ReadsBack depth (.array xs) := by
  intro fuel rest hfuel _ n
  cases xs with
  | nil =>
    obtain ⟨fuel, rfl⟩ := Nat.exists_eq_add_of_le' (Nat.le_trans (by decide) hfuel : 2 ≤ fuel)
    exact ⟨n + 1 + 1, parseValue_array hdepth rfl⟩
  | cons x xs =>
    obtain ⟨hx, hplain⟩ := List.forall_mem_cons.mp hplain
    obtain ⟨hxread, hread⟩ := List.forall_mem_cons.mp hread
    rw [encode_array] at hfuel ⊢
    simp only [List.length_cons, List.length_append, List.length_nil] at hfuel
    obtain ⟨fuel, rfl⟩ := Nat.exists_eq_add_of_le' (by omega : 2 ≤ fuel)
    have hless : 2 * (xs.flatMap (0x2C :: ·.encode)).length < fuel := by omega
    have hfits : 2 * x.encode.length ≤ fuel := by omega
    rw [List.cons_append, List.append_assoc, List.append_assoc, List.singleton_append]
    obtain ⟨n', helements⟩ := parseElements_element hxread hfits
      (closes_flatMap _ xs (.inl rfl)) (scanElementStart_first hx)
      (exists_parseElements hplain hread rest hless)
    exact ⟨n', parseValue_array hdepth helements⟩

/-- The members of an object are read behind its opening brace, and stay in their order. -/
theorem readsBack_object {fs : Fields Json} (hs : fs.Sorted) (hdepth : 1 < depth)
    (hread : ∀ f ∈ fs, ReadsBack (depth - 1) f.2) : ReadsBack depth (.object fs) := by
  intro fuel rest hfuel _ n
  cases fs with
  | nil =>
    obtain ⟨fuel, rfl⟩ := Nat.exists_eq_add_of_le' (Nat.le_trans (by decide) hfuel : 2 ≤ fuel)
    exact ⟨n + 1 + 1, parseValue_object hdepth rfl⟩
  | cons f fs =>
    obtain ⟨hf, hread⟩ := List.forall_mem_cons.mp hread
    rw [encode_object] at hfuel ⊢
    simp only [List.length_cons, List.length_append, List.length_nil] at hfuel
    obtain ⟨fuel, rfl⟩ := Nat.exists_eq_add_of_le' (by omega : 2 ≤ fuel)
    have hall : Fields.overlay (Fields.insert f.1 f.2 []) fs = f :: fs :=
      Fields.overlay_of_sorted hs
    have hless : 2 * (fs.flatMap (0x2C :: encodeMember ·)).length < fuel := by omega
    have hfits : 2 * (encodeMember f).length ≤ fuel := by omega
    have hmembers := exists_parseMembers hread (Fields.insert f.1 f.2 []) rest hless
    rw [hall] at hmembers
    rw [List.cons_append, List.append_assoc, List.append_assoc, List.singleton_append]
    obtain ⟨n', hmembers⟩ := parseMembers_member hf hfits (closes_flatMap _ fs (.inr rfl))
      (scanMemberStart_first f) hmembers
    exact ⟨n', parseValue_object hdepth hmembers⟩

end Values

theorem Plain.readsBack (h : Plain d x) (hd : d < depth) : ReadsBack depth x := by
  induction h generalizing depth with
  | null => exact readsBack_null
  | bool b => exact readsBack_bool b
  | integer hk => exact readsBack_integer hk
  | string s => exact readsBack_string s
  | array h ih => exact readsBack_array h (by omega) fun x hx => ih x hx (by omega)
  | object hs h ih => exact readsBack_object hs (by omega) fun f hf => ih f hf (by omega)

/-- A value that is not nested too deep is parsed from its own text. -/
theorem parse_encode (h : Plain d x) (hd : d < depthLimit) : parse x.encode = .ok x := by
  have hlocated : parseLocated x.encode = .ok x := by
    obtain ⟨n, hvalue⟩ := h.readsBack hd (2 * x.encode.length + 2) [] (by omega) nofun 0
    rw [List.append_nil] at hvalue
    rw [parseLocated, Cursor.start, hvalue]
    rfl
  rw [parse, hlocated]
  rfl

end Parsing

end Json

end GroupCalendar
