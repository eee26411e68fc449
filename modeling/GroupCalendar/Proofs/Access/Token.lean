import GroupCalendar.Access.Token
import GroupCalendar.Proofs.Encoding.Base64
import GroupCalendar.Proofs.Json.Stream
import GroupCalendar.Proofs.Text.Split
import GroupCalendar.Proofs.Time.Duration

/-! # Validity of tokens

A token is read back as the claims that it was made of, by whoever has the secret. It is valid for
the client and the use that it was issued for until the second of its expiry, and for nobody with
another issuer.
-/

namespace GroupCalendar.Access

open Json

section Parts

variable {ρ α : Type} {fields : List (StreamField ρ)} {seen : List String} {initial r : ρ}
  {ms : List (String × Json)}

/-- A part of a token is read as what its members make of a record. -/
theorem readPart_encodePart (h : Fills fields [] initial ms seen r)
    (hall : ∀ f ∈ fields, f.required = true → f.name ∈ seen) (name : String) :
    Tokens.readPart name fields initial (SignedToken.encodePart (printInOrder ms)) = some r := by
  rw [Tokens.readPart, SignedToken.encodePart, Base64.decode_text Base64.reads_urlSafeUnpadded]
  change (Json.readWhole fields name initial _).toOption = _
  rw [h.readWhole hall]
  rfl

theorem reads_name {ofName? : String → Option α} {s : String} {a : α} (h : ofName? s = some a) :
    Reads (readName ofName?) (.string s) a := by
  intro rest _ n
  obtain ⟨text, n', htext, hread⟩ := exists_readString s rest n
  refine ⟨n', ?_⟩
  rw [htext, readName, valueStart_cons rfl]
  change (readString _ >>= _) = _
  rw [hread]
  dsimp only [bind, Except.bind]
  rw [h]

theorem TokenUse.ofText?_text (u : TokenUse) : ofText? u.text = some u := by
  cases u <;> rfl

theorem fills_header : Fills headerFields [] "" Tokens.header ["alg", "typ"] "HS256" := by
  have htype : Reads ((optionalText "typ").read "") (.string "JWT") "" :=
    (reads_option_string "JWT").reading (fun _ r => r) ""
  have halgorithm : Reads readAlgorithm (.string "HS256") "HS256" := reads_name rfl
  exact .known rfl rfl htype (.known rfl rfl (halgorithm.reading (fun s _ => s) "") .nil)

end Parts

/-- Claims that are read back as they are written: a use, and times that are not before 1970. -/
structure Claims.Written (c : Claims) : Prop where
  use : ∃ u, c.use = some u
  iat_nonneg : 0 ≤ c.iat
  iat_fits : IntegerRange.i64.contains c.iat = true
  exp_nonneg : 0 ≤ c.exp
  exp_fits : IntegerRange.i64.contains c.exp = true

namespace Claims.Written

variable {c : Claims}

theorem fills_claims (h : c.Written) :
    Fills claimFields [] {} c.members ["token_use", "exp", "iat", "sub", "iss"] c := by
  obtain ⟨⟨u, hu⟩, hiat, hiat', hexp, hexp'⟩ := h
  obtain ⟨iss, sub, iat, exp, use⟩ := c
  cases hu
  have hiss := (reads_string iss).reading (fun s (c : Claims) => { c with iss := s }) {}
  have hsub := (reads_string sub).reading (fun s (c : Claims) => { c with sub := s }) { iss }
  have hissued := (reads_integer hiat hiat').reading
    (fun n (c : Claims) => { c with iat := n }) { iss, sub }
  have hexpires := (reads_integer hexp hexp').reading
    (fun n (c : Claims) => { c with exp := n }) { iss, sub, iat }
  have huse := (reads_name u.ofText?_text).reading
    (fun u (c : Claims) => { c with use := some u }) { iss, sub, iat, exp }
  exact .known rfl rfl hiss (.known rfl rfl hsub (.known rfl rfl hissued
    (.known rfl rfl hexpires (.known rfl rfl huse .nil))))

theorem fills_audience (h : c.Written) : Fills audienceFields [] false c.members [] false :=
  .unknown rfl (skips_string _) <| .unknown rfl (skips_string _) <|
    .unknown rfl (skips_integer h.iat_nonneg) <| .unknown rfl (skips_integer h.exp_nonneg) <|
    .unknown rfl (skips_string _) .nil

end Claims.Written

/-- The part of a token that has the claims. -/
def Claims.part (c : Claims) : List Char :=
  SignedToken.encodePart (printInOrder c.members)

/-- What a token with some claims signs. -/
def Claims.message (c : Claims) : List Char :=
  SignedToken.message Tokens.header c.members

namespace Tokens

variable {t : Tokens} {c : Claims}

theorem point_notMem (bytes : List UInt8) : '.' ∉ Base64.urlSafeUnpadded.encodeChars bytes := by
  have hsymbol : ∀ n < 64, Base64.urlSafeUnpadded.symbol n ≠ '.' := Base64.point_ne_symbol
  exact Base64.point_notMem hsymbol bytes

theorem cutAtLast_sign (t : Tokens) (c : Claims) :
    Text.cutAtLast '.' (t.sign c).toList =
      some (c.message, SignedToken.encodeSignature (t.signature c.message)) := by
  rw [sign, SignedToken.join, String.toList_ofList]
  exact Text.cutAtLast_append (point_notMem _) c.message

theorem cutAtLast_message (c : Claims) :
    Text.cutAtLast '.' c.message =
      some (SignedToken.encodePart (printInOrder header), c.part) :=
  Text.cutAtLast_append (point_notMem _) _

/-- The claims that a token of three readable parts has for whoever signs them alike. -/
theorem verified?_eq {token : String} {message front part sent : List Char}
    (hcut : Text.cutAtLast '.' token.toList = some (message, sent))
    (hmessage : Text.cutAtLast '.' message = some (front, part))
    (hheader : readPart "Header" headerFields "" front = some "HS256")
    (hclaims : readPart "TokenClaims" claimFields {} part = some c) :
    t.verified? token =
      if sent = SignedToken.encodeSignature (t.signature message) then some (part, c)
      else none := by
  simp only [verified?, hcut, hmessage, hheader, hclaims, Option.bind_eq_bind, Option.bind_some,
    true_and]
  rfl

theorem verified?_sign (h : c.Written) (t s : Tokens) :
    t.verified? (s.sign c) =
      if SignedToken.encodeSignature (s.signature c.message) =
          SignedToken.encodeSignature (t.signature c.message) then some (c.part, c)
      else none :=
  verified?_eq (cutAtLast_sign s c) (cutAtLast_message c)
    (readPart_encodePart fills_header (by decide) "Header")
    (readPart_encodePart h.fills_claims (by decide) "TokenClaims")

/-- A token that another manager may have signed is checked for its signature, its issuer, its use
and its client before its expiry is looked at. -/
theorem validate_sign (h : c.Written) (t s : Tokens) (now : Instant) (asked : TokenUse) :
    t.validate now asked (s.sign c) =
      if SignedToken.encodeSignature (s.signature c.message) ≠
          SignedToken.encodeSignature (t.signature c.message) ∨
          c.iss ≠ t.issuer ∨ c.use ≠ some asked ∨ c.sub.isEmpty then .error .invalid
      else if c.exp ≤ now.seconds then .error .expired
      else .ok c.sub := by
  have haudience := readPart_encodePart h.fills_audience (by decide) "ClaimsForValidation"
  have hexp : ¬ c.exp < 0 := Int.not_lt.mpr h.exp_nonneg
  rw [validate, verified?_sign h]
  by_cases hsame : SignedToken.encodeSignature (s.signature c.message) =
      SignedToken.encodeSignature (t.signature c.message)
  · rw [if_pos hsame]
    change (if readPart _ _ _ c.part ≠ _ then _ else _) = _
    rw [Claims.part, haudience, if_neg (not_not_intro rfl)]
    simp only [hexp, hsame, ne_eq, not_true_eq_false, false_or, ite_or]
  · rw [if_neg hsame, if_pos (.inl hsame)]

/-- What is said of a client's token for one use that expires at some second. -/
def verdict (client : String) (use : TokenUse) (expires : Int) (now : Instant) (asked : TokenUse) :
    Except TokenError String :=
  if asked ≠ use ∨ client.isEmpty then .error .invalid
  else if now.seconds < expires then .ok client
  else .error .expired

/-- The claims of a token that a manager issues. -/
def claimsOf (t : Tokens) (client : String) (use : TokenUse) (issued expires : Instant) : Claims :=
  ⟨t.issuer, client, issued.seconds, expires.seconds, some use⟩

section Issued

variable {client : String} {use : TokenUse} {issued expires : Instant} {n : Int}

theorem fits_seconds (u : Instant) : IntegerRange.i64.contains u.seconds = true := by
  have hmem := u.seconds_mem
  simp only [IntegerRange.contains_iff, IntegerRange.i64]
  omega

theorem written_claimsOf (h1970 : 0 ≤ issued.seconds) (hn : 0 < n)
    (hexpires : issued.addSeconds? n = some expires) :
    (t.claimsOf client use issued expires).Written where
  use := ⟨use, rfl⟩
  iat_nonneg := h1970
  iat_fits := fits_seconds issued
  exp_nonneg := by
    change 0 ≤ expires.seconds
    rw [Instant.seconds_of_addSeconds? hexpires hn]
    omega
  exp_fits := fits_seconds expires

/-- The manager that issued a token gives the verdict on it. -/
theorem validate_issued (h1970 : 0 ≤ issued.seconds) (hn : 0 < n)
    (hexpires : issued.addSeconds? n = some expires) (now : Instant) (asked : TokenUse) :
    t.validate now asked (t.sign (t.claimsOf client use issued expires)) =
      verdict client use (issued.seconds + n) now asked := by
  have hasked : some use ≠ some asked ↔ asked ≠ use := by
    rw [ne_comm, ne_eq, Option.some.injEq]
  have hpast : expires.seconds ≤ now.seconds ↔ ¬ now.seconds < issued.seconds + n := by
    rw [Instant.seconds_of_addSeconds? hexpires hn, Int.not_lt]
  rw [validate_sign (written_claimsOf h1970 hn hexpires)]
  simp only [claimsOf, ne_eq, not_true_eq_false, false_or, hasked, hpast, ite_not, verdict]

/-- A token of another issuer is not valid, whatever the secrets are. -/
theorem validate_of_issuer_ne {other : Tokens} (h1970 : 0 ≤ issued.seconds) (hn : 0 < n)
    (hexpires : issued.addSeconds? n = some expires) (hne : other.issuer ≠ t.issuer)
    (now : Instant) (asked : TokenUse) :
    other.validate now asked (t.sign (t.claimsOf client use issued expires)) =
      .error .invalid := by
  rw [validate_sign (written_claimsOf h1970 hn hexpires), if_pos (.inr (.inl hne.symm))]

/-- An issued token is valid for its use, and for nobody of another issuer, until 15 minutes or 30
days have passed by the second. -/
theorem issued_tokens_validate (t : Tokens) (issued : Instant) (client : String)
    (h1970 : 0 ≤ issued.seconds) (hlast : (issued.addSeconds? (30 * 86400)).isSome) :
    ∃ pair, t.issue? issued client = some pair ∧
      (∀ (now : Instant) (asked : TokenUse),
        t.validate now asked pair.access =
          verdict client .access (issued.seconds + 900) now asked ∧
        t.validate now asked pair.refresh =
          verdict client .refresh (issued.seconds + 30 * 86400) now asked) ∧
      ∀ other : Tokens, other.issuer ≠ t.issuer → ∀ (now : Instant) (asked : TokenUse),
        other.validate now asked pair.access = .error .invalid ∧
        other.validate now asked pair.refresh = .error .invalid := by
  obtain ⟨refreshExpires, hrefresh⟩ := Option.isSome_iff_exists.mp hlast
  obtain ⟨accessExpires, haccess⟩ : ∃ u, issued.addSeconds? (15 * 60) = some u :=
    Instant.exists_addSeconds?_of_le hrefresh (by decide) (by decide)
  have hissue : t.issue? issued client =
      some ⟨t.sign (t.claimsOf client .access issued accessExpires), accessExpires,
        t.sign (t.claimsOf client .refresh issued refreshExpires), refreshExpires⟩ := by
    rw [issue?, accessMinutes, refreshDays, haccess, hrefresh]
    rfl
  refine ⟨_, hissue, fun now asked => ⟨?_, ?_⟩, fun other hne now asked => ⟨?_, ?_⟩⟩
  · exact validate_issued h1970 (by decide) haccess now asked
  · exact validate_issued h1970 (by decide) hrefresh now asked
  · exact validate_of_issuer_ne h1970 (by decide) haccess hne now asked
  · exact validate_of_issuer_ne h1970 (by decide) hrefresh hne now asked

end Issued

section Sample

def atSecond (n : Int) : Instant := (Instant.ofUnix? n 0).getD .epoch

/-- Tokens with a short secret. -/
def sampleTokens (issuer : String) : Tokens := ⟨[0x6B, 0x65, 0x79], issuer⟩

theorem issued_tokens_validate_sample :
    0 ≤ Instant.epoch.seconds ∧ (Instant.epoch.addSeconds? (30 * 86400)).isSome ∧
      ∃ pair, (sampleTokens "calendar").issue? .epoch "team" = some pair ∧
        (sampleTokens "calendar").validate (atSecond 899) .access pair.access = .ok "team" ∧
        (sampleTokens "calendar").validate (atSecond 900) .access pair.access = .error .expired ∧
        (sampleTokens "calendar").validate (atSecond 900) .refresh pair.refresh = .ok "team" ∧
        (sampleTokens "calendar").validate .epoch .refresh pair.access = .error .invalid ∧
        (sampleTokens "diary").validate .epoch .access pair.access = .error .invalid := by
  have hlast : (Instant.epoch.addSeconds? (30 * 86400)).isSome := by decide
  refine ⟨by decide, hlast, ?_⟩
  obtain ⟨pair, hissue, hvalid, hother⟩ :=
    issued_tokens_validate (sampleTokens "calendar") .epoch "team" (by decide) hlast
  refine ⟨pair, hissue, ?_, ?_, ?_, ?_, ?_⟩
  · exact (hvalid (atSecond 899) .access).1
  · exact (hvalid (atSecond 900) .access).1
  · exact (hvalid (atSecond 900) .refresh).2
  · exact (hvalid .epoch .refresh).1
  · exact (hother (sampleTokens "diary") (by decide) .epoch .access).1

end Sample

end Tokens

end GroupCalendar.Access
