import GroupCalendar.Proofs.Listing.Visits
import GroupCalendar.Proofs.Time.Duration

/-! # Granted tokens

A token that is granted for the margin or more is not expiring at once. So where the first fetch at
an instant is granted one, nothing is sent in the visits after it.
-/

namespace GroupCalendar.Listing

open Http

variable {a : Config.ListingAccess} {now : Instant} {xs ys : List (Exchange Site.signature)}
  {outcome : Outcome (Except TokenFetchError AccessToken)} {token : AccessToken} {p : Post}

section Answers

variable {σ : Type} {answer : Post → σ → Option Http.Answer × σ} {site site' : σ}
  {reply : Option Http.Answer}

theorem message_inj {p' : Post} {reply' : Option Http.Answer} :
    message p reply = message p' reply' ↔ p = p' ∧ reply = reply' := by
  constructor
  · intro h
    cases h
    exact ⟨rfl, rfl⟩
  · rintro ⟨rfl, rfl⟩
    rfl

theorem Answered.of_append (h : Answered answer site (xs ++ ys) site') :
    ∃ site'', Answered answer site xs site'' := by
  generalize hzs : xs ++ ys = zs at h
  induction h generalizing xs with
  | nil site =>
    obtain ⟨rfl, -⟩ := List.append_eq_nil_iff.mp hzs
    exact ⟨site, .nil site⟩
  | read now h ih =>
    cases xs with
    | nil => exact ⟨_, .nil _⟩
    | cons x xs =>
      obtain ⟨rfl, htail⟩ := List.cons.inj hzs
      obtain ⟨site'', h'⟩ := ih htail
      exact ⟨site'', .read now h'⟩
  | sent p h ih =>
    cases xs with
    | nil => exact ⟨_, .nil _⟩
    | cons x xs =>
      obtain ⟨rfl, htail⟩ := List.cons.inj hzs
      obtain ⟨site'', h'⟩ := ih htail
      exact ⟨site'', .sent p h'⟩

theorem Answered.reply_eq (h : Answered answer site (reading now :: message p reply :: xs) site') :
    reply = (answer p site).1 := by
  generalize hys : reading now :: message p reply :: xs = ys at h
  cases h with
  | nil => cases hys
  | sent p' h => exact absurd (List.cons.inj hys).1 reading_ne_message
  | read now' h =>
    obtain rfl := (List.cons.inj hys).2
    generalize hzs : message p reply :: xs = zs at h
    cases h with
    | nil => cases hzs
    | read t h => exact absurd (List.cons.inj hzs).1.symm reading_ne_message
    | sent p' h =>
      obtain ⟨rfl, hreply⟩ := message_inj.mp (List.cons.inj hzs).1
      exact hreply

end Answers

/-- A grant is known by its parts. -/
theorem Grant.ofAnswer_eq_ok {answer : Http.Answer} {g : Grant}
    (h : (Grant.ofAnswer answer).toOption.map (fun g => (g.token, g.seconds)) =
      some (g.token, g.seconds)) : Grant.ofAnswer answer = .ok g := by
  cases hread : Grant.ofAnswer answer with
  | error e =>
    rw [hread] at h
    cases h
  | ok g' =>
    rw [hread] at h
    cases g
    cases g'
    cases h
    rfl

/-- A token that is granted for the margin or more is not expiring at once. -/
theorem Grant.fresh_of_toToken {g : Grant} (h : g.toToken now = .ok token)
    (hs : marginSeconds ≤ g.seconds)
    (hleap : now.nanos < nanosPerSecond ∨ marginSeconds < g.seconds) :
    token.isExpiring? now = some false ∧ token.text = g.token := by
  have hpos : 0 < marginSeconds := by decide
  unfold toToken at h
  split at h
  · next expires hexpires =>
    cases h
    obtain ⟨margin, hmargin, hbefore⟩ :=
      Instant.exists_addSeconds?_neg hexpires (by omega) (Int.le_of_lt hpos) hs hleap
    refine ⟨?_, rfl⟩
    rw [AccessToken.isExpiring?, hmargin, Option.map_some, hbefore]
  · cases h

variable [HostNames]

/-- A fetch sends one message at most. -/
theorem Fetch.messages_length_le (h : Fetch a xs outcome) : (messages xs).length ≤ 1 := by
  cases h <;> simp

/-- Either nothing has been exchanged yet, or a caller sends nothing that finds a token which is
not expiring. -/
theorem Course.fresh_messages (h : Course a (some token) (xs ++ ys) outcome) (hx : AllAt now xs)
    (ht : token.isExpiring? now = some false) :
    xs = [] ∨ messages (xs ++ ys) = [] ∧ outcome = .done (.ok token) := by
  cases xs with
  | nil => exact .inl rfl
  | cons x xs =>
    refine .inr ?_
    generalize hzs : x :: xs ++ ys = zs at h
    cases h with
    | fresh => exact ⟨rfl, rfl⟩
    | expiring hexpiring | broken hexpiring =>
      obtain ⟨rfl, -⟩ := List.cons.inj hzs
      rw [hx.head, ht] at hexpiring
      cases hexpiring

/-- A caller that finds a token first reads the clock. -/
theorem not_course_message {reply : Option Http.Answer} :
    ¬ Course a (some token) (message p reply :: xs) outcome := by
  intro h
  generalize hys : message p reply :: xs = ys at h
  cases h <;> exact absurd (List.cons.inj hys).1.symm reading_ne_message

theorem Course.fetch (h : Course a none xs outcome) : Fetch a xs outcome := by
  cases h with
  | missing h => exact h

theorem Course.ne_nil (h : Course a (some token) xs outcome) : xs ≠ [] := by
  cases h <;> exact List.cons_ne_nil _ _

theorem Sends.signed {expires : Instant} (h : Sends a now p)
    (hx : Assertion.expiry? now = some expires) :
    ∃ assertion, Assertion.sign a expires = .ok assertion ∧ assertionPost a assertion = .ok p := by
  obtain ⟨expires', assertion, hx', hs, hp⟩ := h
  obtain rfl := Option.some.inj (hx.symm.trans hx')
  exact ⟨assertion, hs, hp⟩

theorem Sends.unique {p' : Post} (h : Sends a now p) (h' : Sends a now p') : p = p' := by
  obtain ⟨expires, assertion, hx, hs, hp⟩ := h
  obtain ⟨assertion', hs', hp'⟩ := h'.signed hx
  obtain rfl := Except.ok.inj (hs.symm.trans hs')
  exact Except.ok.inj (hp.symm.trans hp')

/-- A fetch at an instant at which a message can be sent sends it. -/
theorem Fetch.of_sends (h : Fetch a xs outcome) (hx : AllAt now xs) (hp : Sends a now p) :
    ∃ reply rest, xs = reading now :: message p reply :: rest ∧
      (readAnswer p reply).Plays rest outcome := by
  cases h with
  | unsigned hexpiry hsign =>
    obtain ⟨assertion, hs, -⟩ := hp.signed (hx.head ▸ hexpiry)
    cases hs.symm.trans hsign
  | unsent hexpiry hsign hpost =>
    obtain ⟨assertion, hs, hmade⟩ := hp.signed (hx.head ▸ hexpiry)
    obtain rfl := Except.ok.inj (hs.symm.trans hsign)
    cases hmade.symm.trans hpost
  | unanswered hp' =>
    obtain rfl := hx.head
    obtain rfl := hp.unique hp'
    exact ⟨none, [], rfl, .done⟩
  | @refused _ _ reply e hp' hgrant =>
    obtain rfl := hx.head
    obtain rfl := hp.unique hp'
    refine ⟨some reply, [], rfl, ?_⟩
    simp [readAnswer, hgrant]
  | @granted _ _ reply g later hp' hgrant =>
    obtain rfl := hx.head
    obtain rfl := hp.unique hp'
    refine ⟨some reply, [reading later], rfl, ?_⟩
    simp only [readAnswer, hgrant]
    exact plays_now.mpr ⟨later, [], rfl, .done⟩
  | broken hexpiry =>
    obtain ⟨expires, -, hexpiry', -⟩ := hp
    cases hexpiry'.symm.trans (hx.head ▸ hexpiry)

/-- A fetch whose message is answered with a grant ends with the token granted. -/
theorem Sends.plays {reply : Http.Answer} {g : Grant} (hp : Sends a now p)
    (hg : Grant.ofAnswer reply = .ok g) :
    (fetchToken a).run.Plays [reading now, message p (some reply), reading now]
      (.done (g.toToken now)) := by
  obtain ⟨next, hnext, hsent⟩ := fetchToken_of_sends hp
  rw [hnext]
  refine plays_now.mpr ⟨now, _, rfl, ?_⟩
  rw [hsent]
  refine plays_post.mpr ⟨some reply, _, rfl, ?_⟩
  rw [readAnswer, hg]
  exact plays_now.mpr ⟨now, _, rfl, .done⟩

section Site

variable {σ : Type} {answer : Post → σ → Option Http.Answer × σ} {site site' : σ}
  {reply : Option Http.Answer}

/-- A message that is sent at an instant is answered by the site with a grant. -/
def Granted (a : Config.ListingAccess) (answer : Post → σ → Option Http.Answer × σ) (now : Instant)
    (site : σ) (g : Grant) : Prop :=
  ∃ p reply, Sends a now p ∧ (answer p site).1 = some reply ∧ Grant.ofAnswer reply = .ok g

/-- The first fetch at the instant of a grant is granted the token, with one message. -/
theorem Granted.fetch {g : Grant} (hg : Granted a answer now site g) (h : Fetch a xs outcome)
    (hx : AllAt now xs) (ha : Answered answer site xs site') :
    outcome = .done (g.toToken now) ∧ (messages xs).length = 1 := by
  obtain ⟨p, reply, hp, hreply, hgrant⟩ := hg
  obtain ⟨reply', rest, rfl, hplays⟩ := h.of_sends hx hp
  obtain rfl := ha.reply_eq
  simp only [hreply, readAnswer, hgrant] at hplays
  obtain ⟨later, rest, rfl, hend⟩ := plays_now.mp hplays
  obtain ⟨rfl, rfl⟩ := Program.plays_done.mp hend
  obtain rfl : later = now := hx later (by simp)
  exact ⟨rfl, rfl⟩

/-- What is exchanged in a fetch that is granted a token. -/
theorem Granted.plays {g : Grant} (hg : Granted a answer now site g) : ∃ p reply,
    (fetchToken a).run.Plays [reading now, message p reply, reading now] (.done (g.toToken now)) ∧
      Answered answer site [reading now, message p reply, reading now] (answer p site).2 := by
  obtain ⟨p, reply, hp, hreply, hgrant⟩ := hg
  refine ⟨p, some reply, hp.plays hgrant, ?_⟩
  rw [← hreply]
  exact .read now (.sent p (.read now (.nil _)))

end Site

/-- From a token that is not expiring on, all visits at that instant leave it and send nothing. -/
theorem Succession.fresh {found kept : Option AccessToken} {visits : List Visit}
    (h : Succession found visits kept) (hfound : found = some token)
    (hc : ∀ v ∈ visits, Course a v.found v.exchanges v.outcome)
    (hx : ∀ v ∈ visits, AllAt now v.exchanges) (ht : token.isExpiring? now = some false) :
    kept = some token ∧
      ∀ v ∈ visits, v.outcome = .done (.ok token) ∧ messages v.exchanges = [] := by
  induction h with
  | nil => exact ⟨hfound, List.forall_mem_nil _⟩
  | @cons v visits kept h ih =>
    obtain ⟨hcourse, hc⟩ := List.forall_mem_cons.mp hc
    obtain ⟨hat, hx⟩ := List.forall_mem_cons.mp hx
    rw [hfound, ← List.append_nil v.exchanges] at hcourse
    obtain ⟨hmessages, houtcome⟩ := (hcourse.fresh_messages hat ht).resolve_left
      fun hnil => hcourse.ne_nil (by simp [hnil])
    have hleft : v.left = some token := by rw [Visit.left, houtcome, tokenAfter]
    obtain ⟨hkept, hothers⟩ := ih hleft hc hx
    refine ⟨hkept, List.forall_mem_cons.mpr ⟨⟨houtcome, ?_⟩, hothers⟩⟩
    simpa using hmessages

end GroupCalendar.Listing
