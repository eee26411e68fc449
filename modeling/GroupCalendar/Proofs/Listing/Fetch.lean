import GroupCalendar.Listing.AccessToken
import GroupCalendar.Proofs.Program.Exchange

/-! # What is exchanged for an access token

A fetch reads the clock, sends one message at most, and reads the clock again when it is granted a
token. It is attempted by whoever finds no token or one that is expiring, and by nobody else.
-/

namespace GroupCalendar

/-- Whoever has a key that is read and signs makes an assertion with that signature. -/
theorem Assertion.sign_of_read {a : Config.ListingAccess} {expires : Instant} {key : RsaKey}
    {signature : List UInt8} (hread : SigningKey.read a.privateKey = .ok key)
    (hsign : key.sign? (SignedToken.octets (SignedToken.message (Assertion.header a)
      (Assertion.claims a expires))) = some signature) :
    Assertion.sign a expires = .ok (SignedToken.join
      (SignedToken.message (Assertion.header a) (Assertion.claims a expires)) signature) := by
  simp only [Assertion.sign, hread, hsign, bind, Except.bind]
  rfl

namespace Listing

open Http

/-- The clock is read. -/
def reading (now : Instant) : Exchange Site.signature := ⟨Site.Request.now, now⟩

/-- A message with its answer, if one comes. -/
def message (p : Post) (reply : Option Http.Answer) : Exchange Site.signature :=
  ⟨Site.Request.post p, reply⟩

section Exchanges

variable {now : Instant} {p : Post} {reply : Option Http.Answer}
  {xs ys : List (Exchange Site.signature)}

/-- The messages among some exchanges. -/
def messages (xs : List (Exchange Site.signature)) : List Post :=
  xs.filterMap fun x =>
    match x.request with
    | Site.Request.now => none
    | Site.Request.post p => some p

@[simp]
theorem messages_nil : messages [] = [] := rfl

@[simp]
theorem messages_reading : messages (reading now :: xs) = messages xs := rfl

@[simp]
theorem messages_message :
    messages (message p reply :: xs) = p :: messages xs := rfl

@[simp]
theorem messages_append : messages (xs ++ ys) = messages xs ++ messages ys :=
  List.filterMap_append

theorem reading_ne_message : reading now ≠ message p reply := by
  intro h
  cases congrArg Exchange.request h

/-- All readings of the clock are of one instant. -/
def AllAt (now : Instant) (xs : List (Exchange Site.signature)) : Prop :=
  ∀ t, reading t ∈ xs → t = now

theorem AllAt.append (h : AllAt now (xs ++ ys)) : AllAt now xs ∧ AllAt now ys :=
  ⟨fun t ht => h t (List.mem_append_left _ ht), fun t ht => h t (List.mem_append_right _ ht)⟩

@[simp]
theorem allAt_nil : AllAt now [] := fun _ => nofun

@[simp]
theorem allAt_reading {t : Instant} : AllAt now (reading t :: xs) ↔ t = now ∧ AllAt now xs := by
  have hinj (u : Instant) : reading u = reading t ↔ u = t :=
    ⟨fun h => (by cases h; rfl), congrArg reading⟩
  simp [AllAt, hinj, or_imp, forall_and]

@[simp]
theorem allAt_message : AllAt now (message p reply :: xs) ↔ AllAt now xs := by
  simp [AllAt, reading_ne_message]

theorem AllAt.head {t : Instant} (h : AllAt now (reading t :: xs)) : t = now :=
  (allAt_reading.mp h).1

end Exchanges

/-- What is done with the answer to an assertion. -/
def readAnswer (p : Post) : Option Http.Answer → Site (Except TokenFetchError AccessToken)
  | none => .done (.error (.transport (TransportError.unreachable p.url).message))
  | some reply =>
    match Grant.ofAnswer reply with
    | .error e => .done (.error e)
    | .ok g => .ask (S := Site.signature) .now fun later => .done (g.toToken later)

theorem run_now_bind {ε α : Type} (f : Instant → ExceptT ε Site α) :
    ExceptT.run (liftM Site.now >>= f) =
      .ask (S := Site.signature) .now fun now => (f now).run :=
  rfl

section Plays

variable {α : Type} {ys : List (Exchange Site.signature)} {ending : Outcome α}

theorem plays_now {next : Instant → Site α} :
    (Program.ask (S := Site.signature) .now next).Plays ys ending ↔
      ∃ now rest, ys = reading now :: rest ∧ (next now).Plays rest ending :=
  Program.plays_ask

theorem plays_post {p : Post} {next : Option Http.Answer → Site α} :
    (Program.ask (S := Site.signature) (.post p) next).Plays ys ending ↔
      ∃ reply rest, ys = message p reply :: rest ∧ (next reply).Plays rest ending :=
  Program.plays_ask

end Plays

variable [HostNames]

/-- The message in which an assertion is sent. -/
def assertionPost (a : Config.ListingAccess) (assertion : String) : Except TransportError Post :=
  Post.make a.authUrl formType none (Text.Utf8.encodeChars (Form.encode (grantForm assertion)))

/-- At an instant an assertion can be signed and put into a message. -/
def Sends (a : Config.ListingAccess) (now : Instant) (p : Post) : Prop :=
  ∃ expires assertion, Assertion.expiry? now = some expires ∧
    Assertion.sign a expires = .ok assertion ∧ assertionPost a assertion = .ok p

/-- The exchanges of a fetch and how it ends. It breaks off where no assertion could expire, since
the calendar ends before. -/
inductive Fetch (a : Config.ListingAccess) :
    List (Exchange Site.signature) → Outcome (Except TokenFetchError AccessToken) → Prop
  | unsigned {now expires e} (hx : Assertion.expiry? now = some expires)
    (hs : Assertion.sign a expires = .error e) :
    Fetch a [reading now] (.done (.error (.signing e.message)))
  | unsent {now expires assertion e} (hx : Assertion.expiry? now = some expires)
    (hs : Assertion.sign a expires = .ok assertion) (hp : assertionPost a assertion = .error e) :
    Fetch a [reading now] (.done (.error (.transport e.message)))
  | unanswered {now p} (hp : Sends a now p) :
    Fetch a [reading now, message p none]
      (.done (.error (.transport (TransportError.unreachable p.url).message)))
  | refused {now p reply e} (hp : Sends a now p) (hg : Grant.ofAnswer reply = .error e) :
    Fetch a [reading now, message p (some reply)] (.done (.error e))
  | granted {now p reply g later} (hp : Sends a now p) (hg : Grant.ofAnswer reply = .ok g) :
    Fetch a [reading now, message p (some reply), reading later] (.done (g.toToken later))
  | broken {now} (hx : Assertion.expiry? now = none) : Fetch a [reading now] .broken

/-- The exchanges of a caller that finds a token or none, and how it ends. It breaks off where the
calendar does not reach back to the margin of the token. -/
inductive Course (a : Config.ListingAccess) : Option AccessToken →
    List (Exchange Site.signature) → Outcome (Except TokenFetchError AccessToken) → Prop
  | missing {xs outcome} (h : Fetch a xs outcome) : Course a none xs outcome
  | expiring {token : AccessToken} {now xs outcome} (ht : token.isExpiring? now = some true)
    (h : Fetch a xs outcome) : Course a (some token) (reading now :: xs) outcome
  | fresh {token : AccessToken} {now} (ht : token.isExpiring? now = some false) :
    Course a (some token) [reading now] (.done (.ok token))
  | broken {token : AccessToken} {now} (ht : token.isExpiring? now = none) :
    Course a (some token) [reading now] .broken

variable {a : Config.ListingAccess} {kept : Option AccessToken} {now : Instant}
  {xs : List (Exchange Site.signature)} {outcome : Outcome (Except TokenFetchError AccessToken)}

theorem fetchToken_eq (a : Config.ListingAccess) :
    (fetchToken a).run = .ask (S := Site.signature) .now fun now =>
      match Assertion.expiry? now with
      | none => .broken
      | some expires =>
        match Assertion.sign a expires with
        | .error e => .done (.error (.signing e.message))
        | .ok assertion =>
          match assertionPost a assertion with
          | .error e => .done (.error (.transport e.message))
          | .ok p => .ask (S := Site.signature) (.post p) (readAnswer p) := by
  refine (run_now_bind _).trans (congrArg _ (funext fun now => ?_))
  dsimp only
  cases Assertion.expiry? now with
  | none => rfl
  | some expires =>
    dsimp only
    cases Assertion.sign a expires with
    | error e => rfl
    | ok assertion =>
      change ExceptT.run (ExceptT.adapt _ (do
        Site.send (← ExceptT.mk (.done (assertionPost a assertion)))) >>= _) = _
      dsimp only
      cases assertionPost a assertion with
      | error e => rfl
      | ok p =>
        refine congrArg (Program.ask (S := Site.signature) (.post p)) (funext fun reply => ?_)
        cases reply with
        | none => rfl
        | some reply =>
          change ExceptT.run (known (Grant.ofAnswer reply) >>= _) = _
          unfold readAnswer
          dsimp only
          cases Grant.ofAnswer reply <;> rfl

/-- A fetch at an instant at which a message can be sent sends it and reads the answer. -/
theorem fetchToken_of_sends {p : Post} (hp : Sends a now p) :
    ∃ next, (fetchToken a).run = .ask (S := Site.signature) .now next ∧
      next now = .ask (S := Site.signature) (.post p) (readAnswer p) := by
  obtain ⟨expires, assertion, hx, hs, hpost⟩ := hp
  refine ⟨_, fetchToken_eq a, ?_⟩
  simp only [hx, hs, hpost]

theorem answer_of_plays {p : Post} {reply : Option Http.Answer} (hp : Sends a now p)
    (h : (readAnswer p reply).Plays xs outcome) :
    Fetch a (reading now :: message p reply :: xs) outcome := by
  unfold readAnswer at h
  split at h
  · obtain ⟨rfl, rfl⟩ := Program.plays_done.mp h
    exact .unanswered hp
  · split at h
    · next e hg =>
      obtain ⟨rfl, rfl⟩ := Program.plays_done.mp h
      exact .refused hp hg
    · next g hg =>
      obtain ⟨later, rest, rfl, hrest⟩ := plays_now.mp h
      obtain ⟨rfl, rfl⟩ := Program.plays_done.mp hrest
      exact .granted hp hg

theorem fetch_of_plays (h : (fetchToken a).run.Plays xs outcome) : Fetch a xs outcome := by
  rw [fetchToken_eq] at h
  obtain ⟨now, rest, rfl, hrest⟩ := plays_now.mp h
  split at hrest
  · next hx =>
    cases hrest
    exact .broken hx
  · next expires hx =>
    split at hrest
    · next e hs =>
      obtain ⟨rfl, rfl⟩ := Program.plays_done.mp hrest
      exact .unsigned hx hs
    · next assertion hs =>
      split at hrest
      · next e hp =>
        obtain ⟨rfl, rfl⟩ := Program.plays_done.mp hrest
        exact .unsent hx hs hp
      · next p hp =>
        obtain ⟨reply, rest, rfl, hanswer⟩ := plays_post.mp hrest
        exact answer_of_plays ⟨expires, assertion, hx, hs, hp⟩ hanswer

theorem obtainToken_some_eq (a : Config.ListingAccess) (token : AccessToken) :
    (obtainToken a (some token)).run = .ask (S := Site.signature) .now fun now =>
      match token.isExpiring? now with
      | some false => .done (.ok token)
      | some true => (fetchToken a).run
      | none => .broken := by
  refine (run_now_bind _).trans (congrArg _ (funext fun now => ?_))
  match token.isExpiring? now with
  | some false | some true | none => rfl

/-- What a caller does depends on the token it finds and on the clock. -/
theorem course_of_plays (h : (obtainToken a kept).run.Plays xs outcome) :
    Course a kept xs outcome := by
  cases kept with
  | none => exact .missing (fetch_of_plays h)
  | some token =>
    rw [obtainToken_some_eq] at h
    obtain ⟨now, rest, rfl, hrest⟩ := plays_now.mp h
    split at hrest
    · next ht =>
      obtain ⟨rfl, rfl⟩ := Program.plays_done.mp hrest
      exact .fresh ht
    · next ht => exact .expiring ht (fetch_of_plays hrest)
    · next ht =>
      cases hrest
      exact .broken ht

end Listing

end GroupCalendar
