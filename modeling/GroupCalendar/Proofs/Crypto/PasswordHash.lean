import GroupCalendar.Crypto.PasswordHash
import GroupCalendar.Proofs.Encoding.Base64
import GroupCalendar.Proofs.Text.Split

/-! # Passwords and their hashes

A hash is written as a version, a cost, a salt and the hashed password, and is read back from what
is written. So every password matches the text that is kept for it, at every cost and with every
salt.
-/

namespace GroupCalendar

namespace Base64

theorem length_encodeChars {b : Base64} (hb : b.padded = false) : ∀ bytes : List UInt8,
    (b.encodeChars bytes).length = (bytes.length * 4 + 2) / 3
  | [] => rfl
  | [_] | [_, _] => by simp [encodeChars, padding, hb]
  | x :: y :: z :: rest => by
    have ih := length_encodeChars hb rest
    simp only [encodeChars, List.length_cons]
    omega

end Base64

namespace PasswordHash

open Text

theorem reads_passwordHash : Base64.passwordHash.Reads := by decide +kernel

/-- A hash as it is kept, in version `2b`. -/
def toText (h : PasswordHash) : String :=
  String.ofList <| joinWith '$' [[], "2b".toList, (padDigits 2 h.cost).toList,
    Base64.passwordHash.encodeChars h.salt ++ Base64.passwordHash.encodeChars h.hash]

theorem dollar_notMem (bytes : List UInt8) : '$' ∉ Base64.passwordHash.encodeChars bytes := by
  have hsymbol : ∀ n < 64, Base64.passwordHash.symbol n ≠ '$' := by decide +kernel
  intro h
  rcases Base64.mem_encodeChars h with ⟨n, hn, he⟩ | he
  · exact hsymbol n hn he.symm
  · cases he

theorem length_octets (bytes : List UInt8) :
    (Utf8.encodeChars (Base64.passwordHash.encodeChars bytes)).length =
      (bytes.length * 4 + 2) / 3 := by
  rw [Base64.encodeChars_octets reads_passwordHash fun c hc => Base64.mem_encodeChars hc,
    Base64.octets, List.length_map, Base64.length_encodeChars rfl]

/-- The cost is read back from two digits. -/
theorem read_cost {cost : Nat} (h : 4 ≤ cost ∧ cost ≤ 31) :
    IntegerRange.u32.read (padDigits 2 cost).toList = .ok (cost : Int) ∧
      '$' ∉ (padDigits 2 cost).toList ∧ (padDigits 2 cost).toList ≠ [] := by
  have hread : ∀ n < 32, 4 ≤ n →
      (IntegerRange.u32.read (padDigits 2 n).toList).toOption = some (n : Int) ∧
        '$' ∉ (padDigits 2 n).toList ∧ (padDigits 2 n).toList ≠ [] := by decide +kernel
  obtain ⟨hcost, htext⟩ := hread cost (by omega) h.1
  refine ⟨?_, htext⟩
  cases hresult : IntegerRange.u32.read (padDigits 2 cost).toList with
  | ok n =>
    rw [hresult] at hcost
    rw [Option.some.inj hcost]
  | error e =>
    rw [hresult] at hcost
    cases hcost

/-- A hash is read back from its text. -/
theorem parse?_toText {cost : Nat} {salt hash : List UInt8}
    (hcost : 4 ≤ cost ∧ cost ≤ 31) (hsalt : salt.length = 16)
    (hhash : hash.length = 23) :
    parse? (toText ⟨cost, salt, hash⟩) = some ⟨cost, salt, hash⟩ := by
  let saltText := Base64.passwordHash.encodeChars salt
  let hashText := Base64.passwordHash.encodeChars hash
  obtain ⟨hread, hdollar, hsome⟩ := read_cost hcost
  have hsaltLength : (Utf8.encodeChars saltText).length = 22 := by rw [length_octets, hsalt]
  have hhashLength : (Utf8.encodeChars hashText).length = 31 := by rw [length_octets, hhash]
  have hrest : saltText ++ hashText ≠ [] := fun hnil => by
    rw [(List.append_eq_nil_iff.mp hnil).1] at hsaltLength
    cases hsaltLength
  have hparts : (Text.splitAt '$'
      (toText ⟨cost, salt, hash⟩).toList).filter (!·.isEmpty) =
      ["2b".toList, (padDigits 2 cost).toList, saltText ++ hashText] := by
    have hnotMem : ∀ part ∈ [[], "2b".toList, (padDigits 2 cost).toList, saltText ++ hashText],
        '$' ∉ part := by
      simp only [List.forall_mem_cons, List.mem_append, not_or]
      exact ⟨List.not_mem_nil, by decide, hdollar, ⟨dollar_notMem _, dollar_notMem _⟩, nofun⟩
    rw [toText, String.toList_ofList, splitAt_joinWith (List.cons_ne_nil _ _) hnotMem]
    simp [hsome, hrest]
  have hbytes : Utf8.encodeChars (saltText ++ hashText) =
      Utf8.encodeChars saltText ++ Utf8.encodeChars hashText :=
    Utf8.encodeChars_append saltText hashText
  have hlength : (Utf8.encodeChars (saltText ++ hashText)).length = 53 := by
    rw [hbytes, List.length_append, hsaltLength, hhashLength]
  have htake : (Utf8.encodeChars (saltText ++ hashText)).take 22 = Utf8.encodeChars saltText := by
    rw [hbytes, ← hsaltLength, List.take_left]
  have hdrop : (Utf8.encodeChars (saltText ++ hashText)).drop 22 = Utf8.encodeChars hashText := by
    rw [hbytes, ← hsaltLength, List.drop_left]
  have hrange : (4 : Int) ≤ cost ∧ (cost : Int) ≤ 31 := by omega
  simp only [parse?, hparts, hread, hlength, hrange, htake, hdrop, saltText, hashText,
    Base64.decode_text reads_passwordHash]
  rfl

end PasswordHash

end GroupCalendar
