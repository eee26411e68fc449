import GroupCalendar.Json.Stream
import GroupCalendar.Proofs.Json.Skipped

/-! # Reading records from printed members

A record that is read from the text of an object is filled member by member. A member with the name
of a field is read by this field, and any other member is skipped.
-/

namespace GroupCalendar.Json

open Text.Utf8

variable {α β ρ : Type}

section Readers

variable {n : Nat} {rest : List UInt8} {b : UInt8}

/-- A reader takes the text of a value for a result, whatever closes the part around it. -/
def Reads (read : Reader α) (x : Json) (a : α) : Prop :=
  ∀ rest, Closes rest → ∀ n, ∃ n', read ⟨x.encode ++ rest, n⟩ = .ok (a, ⟨rest, n'⟩)

theorem valueStart_cons (h : isSpace b = false) :
    valueStart ⟨b :: rest, n⟩ = .ok (b, ⟨b :: rest, n⟩) := by
  rw [valueStart, skipSpace_cons h]

/-- A string is read from its opening quote on. -/
theorem exists_readString (s : String) (rest : List UInt8) (n : Nat) :
    ∃ text n', (Json.string s).encode ++ rest = 0x22 :: text ∧
      readString ⟨0x22 :: text, n⟩ = .ok (s, ⟨rest, n'⟩) := by
  obtain ⟨n', hscan⟩ := scans_string s rest (n + 1)
  refine ⟨_, n', congrArg (· ++ rest) (encode_string s), ?_⟩
  rw [readString, valueStart_cons rfl]
  exact congrArg ofScan hscan

theorem reads_string (s : String) : Reads readString (.string s) s := by
  intro rest _ n
  obtain ⟨text, n', htext, hread⟩ := exists_readString s rest n
  rw [htext]
  exact ⟨n', hread⟩

theorem reads_option_string (s : String) :
    Reads (readOption readString) (.string s) (some s) := by
  intro rest _ n
  obtain ⟨text, n', htext, hread⟩ := exists_readString s rest n
  refine ⟨n', ?_⟩
  rw [htext, readOption, valueStart_cons rfl]
  change (readString _ >>= _) = _
  rw [hread]
  rfl

theorem reads_integer {k : Int} (hk : 0 ≤ k) (hrange : IntegerRange.i64.contains k = true) :
    Reads readInteger (.integer k) k := by
  intro rest hrest n
  have hmem := IntegerRange.contains_iff.mp hrange
  have hintegral : isIntegral k = true := by
    simp only [IntegerRange.i64] at hmem
    simp only [isIntegral, Bool.and_eq_true, decide_eq_true_eq]
    omega
  obtain ⟨n', hscan⟩ := scans_integer hintegral hrest n
  obtain ⟨b, text, v, htext, hdigit⟩ := exists_encodeChars_toDigits k.natAbs
  refine ⟨n', ?_⟩
  rw [decide_eq_true hk] at hscan
  rw [encode_integer_of_nonneg hk]
  rw [htext, List.cons_append] at hscan ⊢
  rw [readInteger, valueStart_cons (isSpace_of_digit hdigit)]
  dsimp only [bind, Except.bind]
  rw [hdigit, Option.isSome_some, Bool.or_true, if_pos rfl, parseValue_digit hdigit, hscan]
  exact if_pos hrange

theorem Reads.reading {read : Reader α} {x : Json} {a : α} (h : Reads read x a)
    (set : α → ρ → ρ) (r : ρ) : Reads (StreamField.reading read set r) x (set a r) := by
  intro rest hrest n
  obtain ⟨n', hread⟩ := h rest hrest n
  refine ⟨n', ?_⟩
  rw [StreamField.reading, hread]
  rfl

end Readers

section Members

variable {fields : List (StreamField ρ)}

/-- What the members of an object make of a record, and of the names that were read before. -/
inductive Fills (fields : List (StreamField ρ)) :
    List String → ρ → List (String × Json) → List String → ρ → Prop
  | nil {seen : List String} {r : ρ} : Fills fields seen r [] seen r
  | known {seen seen' : List String} {r r' r'' : ρ} {m : String × Json} {ms : List (String × Json)}
    {f : StreamField ρ} (hfield : fields.find? (·.name = m.1) = some f)
    (hnew : seen.contains m.1 = false) (hread : Reads (f.read r) m.2 r')
    (hrest : Fills fields (m.1 :: seen) r' ms seen' r'') : Fills fields seen r (m :: ms) seen' r''
  | unknown {seen seen' : List String} {r r' : ρ} {m : String × Json} {ms : List (String × Json)}
    (hfield : fields.find? (·.name = m.1) = none) (hskip : Skips m.2)
    (hrest : Fills fields seen r ms seen' r') : Fills fields seen r (m :: ms) seen' r'

variable {seen seen' : List String} {r r' : ρ} {m : String × Json} {ms : List (String × Json)}
  {fuel n : Nat} {first : Bool} {name : String} {c c₁ c₂ c₃ c₄ : Cursor} {f : StreamField ρ}

theorem readMembers_known (hstart : scanMemberStart first c = .ok (.item c₁))
    (hname : scanString c₁ = .ok (name, c₂)) (hcolon : scanColon c₂ = .ok ((), c₃))
    (hfield : fields.find? (·.name = name) = some f) (hnew : seen.contains name = false)
    (hread : f.read r c₃ = .ok (r', c₄)) :
    readMembers fields (fuel + 1) first seen r c =
      readMembers fields fuel false (name :: seen) r' c₄ := by
  rw [readMembers, hstart]
  change (atPlace .whole (ofScan (scanString c₁)) >>= _) = _
  rw [hname]
  dsimp only [ofScan, atPlace, Except.mapError, bind, Except.bind]
  rw [hfield]
  dsimp only
  rw [hnew, if_neg Bool.false_ne_true, hcolon]
  change (atPlace (.member name) (f.read r c₃) >>= _) = _
  rw [hread]
  rfl

theorem readMembers_unknown (hstart : scanMemberStart first c = .ok (.item c₁))
    (hname : scanString c₁ = .ok (name, c₂)) (hcolon : scanColon c₂ = .ok ((), c₃))
    (hfield : fields.find? (·.name = name) = none) (hskip : skipAny c₃ = .ok c₄) :
    readMembers fields (fuel + 1) first seen r c = readMembers fields fuel false seen r c₄ := by
  rw [readMembers, hstart]
  change (atPlace .whole (ofScan (scanString c₁)) >>= _) = _
  rw [hname]
  dsimp only [ofScan, atPlace, Except.mapError, bind, Except.bind]
  rw [hfield]
  dsimp only
  rw [hcolon]
  change (atPlace (.member name) (ofScan (skipAny c₃)) >>= _) = _
  rw [hskip]
  rfl

/-- A member is read or skipped from behind the quote of its name, and the others fill the record
further. -/
theorem Fills.exists_member (h : Fills fields seen r (m :: ms) seen' r') :
    ∃ seen₁ r₁, Fills fields seen₁ r₁ ms seen' r' ∧ ∀ (fuel : Nat) (first : Bool) (c : Cursor)
      (more : List UInt8) (n : Nat), Closes more →
      scanMemberStart first c = .ok (.item ⟨(encodeMember m).tail ++ more, n⟩) →
      ∃ n', readMembers fields (fuel + 1) first seen r c =
        readMembers fields fuel false seen₁ r₁ ⟨more, n'⟩ := by
  cases h with
  | known hfield hnew hread hrest =>
    refine ⟨_, _, hrest, fun fuel first c more n hmore hstart => ?_⟩
    rw [encodeMember_eq, List.tail_cons, List.append_assoc] at hstart
    obtain ⟨n₁, hname⟩ := scans_string m.1 (0x3A :: m.2.encode ++ more) n
    obtain ⟨n₂, hvalue⟩ := hread more hmore (n₁ + 1)
    exact ⟨n₂, readMembers_known hstart hname rfl hfield hnew hvalue⟩
  | unknown hfield hskip hrest =>
    refine ⟨_, _, hrest, fun fuel first c more n hmore hstart => ?_⟩
    rw [encodeMember_eq, List.tail_cons, List.append_assoc] at hstart
    obtain ⟨n₁, hname⟩ := scans_string m.1 (0x3A :: m.2.encode ++ more) n
    obtain ⟨n₂, hvalue⟩ := hskip more hmore (n₁ + 1)
    exact ⟨n₂, readMembers_unknown hstart hname rfl hfield hvalue⟩

/-- The members behind the first one are read up to the closing brace. -/
theorem Fills.exists_readMembers (h : Fills fields seen r ms seen' r') (rest : List UInt8)
    (hfuel : (ms.flatMap (0x2C :: encodeMember ·)).length < fuel) (n : Nat) :
    ∃ n', readMembers fields fuel false seen r
        ⟨ms.flatMap (0x2C :: encodeMember ·) ++ 0x7D :: rest, n⟩ =
      .ok (seen', r', ⟨rest, n'⟩) := by
  induction ms generalizing seen r fuel n with
  | nil =>
    cases h
    obtain ⟨fuel, rfl⟩ := Nat.exists_eq_add_of_le' hfuel
    exact ⟨n + 1, rfl⟩
  | cons m ms ih =>
    obtain ⟨seen₁, r₁, hrest, hmember⟩ := h.exists_member
    obtain ⟨fuel, rfl⟩ : ∃ k, fuel = k + 1 := Nat.exists_eq_add_of_le' (Nat.zero_lt_of_lt hfuel)
    rw [List.flatMap_cons, List.length_append, List.length_cons] at hfuel
    have hless : (ms.flatMap (0x2C :: encodeMember ·)).length < fuel := by omega
    rw [List.flatMap_cons, List.append_assoc, List.cons_append]
    obtain ⟨n₁, hstep⟩ := hmember fuel false _ _ _ (closes_flatMap _ ms (.inr rfl))
      (scanMemberStart_comma m)
    obtain ⟨n₂, hmembers⟩ := ih hrest hless n₁
    exact ⟨n₂, hstep.trans hmembers⟩

/-- The members are read from behind the opening brace. -/
theorem Fills.exists_readMembers_first (h : Fills fields seen r ms seen' r') :
    ∃ text n', encodeChars (printInOrder ms) = 0x7B :: text ∧
      readMembers fields (text.length + 2) true seen r ⟨text, 1⟩ = .ok (seen', r', ⟨[], n'⟩) := by
  cases ms with
  | nil =>
    cases h
    exact ⟨[0x7D], 2, rfl, rfl⟩
  | cons m ms =>
    obtain ⟨seen₁, r₁, hrest, hmember⟩ := h.exists_member
    have hless : (ms.flatMap (0x2C :: encodeMember ·)).length <
        (encodeMember m ++ (ms.flatMap (0x2C :: encodeMember ·) ++ [0x7D])).length + 1 := by
      simp only [List.length_append]
      omega
    obtain ⟨n₁, hstep⟩ := hmember _ true _ _ _ (closes_flatMap _ ms (.inr rfl))
      (scanMemberStart_first m)
    obtain ⟨n₂, hmembers⟩ := hrest.exists_readMembers [] hless n₁
    exact ⟨_, n₂, encode_object m ms, hstep.trans hmembers⟩

/-- A record is read from its printed members if these fill it and have all that is required. -/
theorem Fills.readWhole {initial : ρ} (h : Fills fields [] initial ms seen r)
    (hall : ∀ f ∈ fields, f.required = true → f.name ∈ seen) (name : String) :
    Json.readWhole fields name initial (encodeChars (printInOrder ms)) = .ok r := by
  have hrequired : fields.find? (fun f => f.required && !seen.contains f.name) = none := by
    simp only [List.find?_eq_none, Bool.and_eq_true, Bool.not_eq_true', not_and,
      Bool.not_eq_false, List.contains_iff_mem]
    exact hall
  obtain ⟨text, n', htext, hmembers⟩ := h.exists_readMembers_first
  rw [htext, Json.readWhole, Cursor.start, readRecord, valueStart_cons rfl]
  change ((readMembers fields (text.length + 2) true [] initial ⟨text, 1⟩ >>= _) >>= _) = _
  rw [hmembers]
  dsimp only [bind, Except.bind]
  rw [hrequired]
  rfl

end Members

end GroupCalendar.Json
