import GroupCalendar.Proofs.Crypto.SigningKey
import GroupCalendar.Proofs.Listing.Granted
import GroupCalendar.Proofs.Listing.Turns

/-! # One message for all callers

The callers' visits follow one another in every run. Where the first fetch is granted a token that
is not expiring at the instant of its grant, the callers at that instant send one message only, and
all get that token.
-/

namespace GroupCalendar.Listing

open Http

namespace Sharing

variable {a : Config.ListingAccess} {now : Instant} {xs : List (Exchange Site.signature)}
  {token : AccessToken} {g : Grant} {σ : Type} {answer : Post → σ → Option Http.Answer × σ} {site : σ}
  {log : List (Nat × Exchange Site.signature)} {s : Sharing σ} {visits : List Visit}
  {current : Option (Nat × List (Exchange Site.signature))} {kept : Option AccessToken} {i : Nat}

/-- The message of caller `i` is on its way. -/
def Asks (s : Sharing σ) (i : Nat) : Prop :=
  ∃ p next, s.callers[i]? = some (.asking p next)

theorem Asks.work (h : s.Asks i) :
    ∃ p next, s.work? i = some (.ask (S := Site.signature) (.post p) next) := by
  obtain ⟨p, next, h⟩ := h
  exact ⟨p, next, by rw [work?, h]; rfl⟩

/-- What has been exchanged in the visit that is not over. -/
def soFar (current : Option (Nat × List (Exchange Site.signature))) :
    List (Exchange Site.signature) :=
  current.toList.flatMap (·.2)

theorem reading_eq_now {t : Instant} (h : s.exchange? answer i = some (reading t)) : t = s.now := by
  unfold exchange? at h
  split at h
  · cases h
    rfl
  · exact absurd (Option.some.inj h).symm reading_ne_message
  · cases h

section Callers

variable [HostNames]

namespace Account

theorem log_exchanges (h : Account a answer kept site log s visits current) :
    log.map (·.2) = visits.flatMap (·.exchanges) ++ soFar current := by
  rw [h.log_eq, List.map_append, List.map_flatMap, List.map_flatMap]
  simp [Visit.entries, soFar, Function.comp_def]

/-- The first visit of callers at one instant is granted the token, which all later ones find. -/
theorem after_first {v : Visit} (h : Account a answer none site log s (v :: visits) current)
    (hg : Granted a answer now site g) (htoken : g.toToken now = .ok token)
    (ht : token.isExpiring? now = some false) (hx : AllAt now (log.map (·.2))) :
    s.kept = some token ∧ (∀ w ∈ v :: visits, w.outcome = .done (.ok token)) ∧
      (messages ((v :: visits).flatMap (·.exchanges))).length = 1 := by
  have hlog := h.log_exchanges
  rw [List.flatMap_cons, List.append_assoc] at hlog
  obtain ⟨hcourse, hothers⟩ := List.forall_mem_cons.mp h.course
  obtain ⟨site', hanswered⟩ := Answered.of_append (hlog ▸ h.answered)
  obtain ⟨hfirst, hrest⟩ := AllAt.append (hlog ▸ hx)
  obtain ⟨hv, hleft⟩ := h.succession.of_cons
  rw [hv] at hcourse
  obtain ⟨houtcome, hmessages⟩ := hg.fetch hcourse.fetch hfirst hanswered
  rw [htoken] at houtcome
  have hat : ∀ w ∈ visits, AllAt now w.exchanges := fun w hw t ht =>
    hrest t (List.mem_append_left _ (List.mem_flatMap.mpr ⟨w, hw, ht⟩))
  obtain ⟨hkept, hlater⟩ := hleft.fresh (by rw [Visit.left, houtcome, tokenAfter]) hothers hat ht
  refine ⟨hkept, List.forall_mem_cons.mpr ⟨houtcome, fun w hw => (hlater w hw).1⟩, ?_⟩
  have hsilent : messages (visits.flatMap (·.exchanges)) = [] := by
    rw [messages, List.filterMap_flatMap, List.flatMap_eq_nil_iff]
    exact fun w hw => (hlater w hw).2
  rw [List.flatMap_cons, messages_append, hsilent, List.append_nil, hmessages]

/-- Whoever has the token to itself is within a course from the token that is kept. -/
theorem exists_course (h : Account a answer kept site log s visits current) :
    soFar current = [] ∨ ∃ rest outcome, Course a s.kept (soFar current ++ rest) outcome := by
  cases current with
  | none => exact .inl rfl
  | some x =>
    refine .inr ?_
    obtain ⟨work, hwork⟩ := Option.isSome_iff_exists.mp (h.present x.1 x.2 rfl)
    obtain ⟨xs, hxs, hcourse⟩ := h.begun x.1 work hwork
    obtain ⟨rest, outcome, -, hplays, -⟩ := exists_answered answer s.now s.site work
    refine ⟨rest, outcome, ?_⟩
    simpa [soFar, hxs] using hcourse rest outcome hplays

/-- Whoever waits for an answer has sent a message in a course from the token that is kept. -/
theorem exists_course_of_asks (h : Account a answer kept site log s visits current)
    (hi : s.Asks i) : ∃ p rest outcome,
      Course a s.kept (soFar current ++ message p none :: rest) outcome := by
  obtain ⟨p, next, hwork⟩ := hi.work
  obtain ⟨xs, hxs, hcourse⟩ := h.begun i _ hwork
  obtain ⟨rest, outcome, -, hplays, -⟩ := exists_answered answer s.now s.site (next none)
  refine ⟨p, rest, outcome, ?_⟩
  simpa [soFar, hxs] using hcourse _ _ (plays_post.mpr ⟨none, rest, rfl, hplays⟩)

/-- Whoever has found no token has sent one message at most, and none yet if one is on its way. -/
theorem messages_of_missing (h : Account a answer kept site log s visits current)
    (hkept : s.kept = none) : (messages (soFar current)).length ≤ 1 ∧
      ∀ i, s.Asks i → messages (soFar current) = [] := by
  constructor
  · obtain hnil | ⟨rest, outcome, hcourse⟩ := h.exists_course
    · simp [hnil]
    · have hlength := (hkept ▸ hcourse).fetch.messages_length_le
      rw [messages_append, List.length_append] at hlength
      omega
  · intro i hi
    obtain ⟨p, rest, outcome, hcourse⟩ := h.exists_course_of_asks hi
    have hlength := (hkept ▸ hcourse).fetch.messages_length_le
    rw [messages_append, messages_message, List.length_append, List.length_cons] at hlength
    exact List.length_eq_zero_iff.mp (by omega)

/-- Whoever has found a token that is not expiring sends no message. -/
theorem messages_of_fresh (h : Account a answer kept site log s visits current)
    (hkept : s.kept = some token) (ht : token.isExpiring? now = some false)
    (hx : AllAt now (soFar current)) :
    messages (soFar current) = [] ∧ ∀ i, ¬ s.Asks i := by
  constructor
  · obtain hnil | ⟨rest, outcome, hcourse⟩ := h.exists_course
    · simp [hnil]
    · obtain hnil | ⟨hmessages, -⟩ := (hkept ▸ hcourse).fresh_messages hx ht
      · simp [hnil]
      · rw [messages_append, List.append_eq_nil_iff] at hmessages
        exact hmessages.1
  · intro i hi
    obtain ⟨p, rest, outcome, hcourse⟩ := h.exists_course_of_asks hi
    rw [hkept] at hcourse
    obtain hnil | ⟨hmessages, -⟩ := hcourse.fresh_messages hx ht
    · rw [hnil, List.nil_append] at hcourse
      exact not_course_message hcourse
    · simp at hmessages

section OneInstant

variable (h : Account a answer none site log s visits current) (hg : Granted a answer now site g)
  (htoken : g.toToken now = .ok token) (ht : token.isExpiring? now = some false)
  (hx : AllAt now (log.map (·.2)))

include h hg htoken ht hx

/-- Callers at one instant send one message at most, which is the only one while it is on its
way. -/
theorem messages_length_le : (messages (log.map (·.2))).length ≤ 1 ∧
    ∀ i, s.Asks i → messages (log.map (·.2)) = [] := by
  have hlog := h.log_exchanges
  cases visits with
  | nil =>
    rw [hlog, List.flatMap_nil, List.nil_append]
    exact h.messages_of_missing h.succession.of_nil
  | cons v visits =>
    have hcurrent : AllAt now (soFar current) := (AllAt.append (hlog ▸ hx)).2
    obtain ⟨hkept, -, hlength⟩ := h.after_first hg htoken ht hx
    obtain ⟨hsilent, hasks⟩ := h.messages_of_fresh hkept ht hcurrent
    rw [hlog, messages_append, hsilent, List.append_nil]
    exact ⟨Nat.le_of_eq hlength, fun i hi => absurd hi (hasks i)⟩

/-- When all callers of one instant have ended, one message has been sent and all have its
token. -/
theorem all_granted (hs : s.Ended) (hne : s.callers ≠ []) :
    (messages (log.map (·.2))).length = 1 ∧
      ∀ phase ∈ s.callers, phase = .finished (.done (.ok token.text)) := by
  have hfinished : ∀ phase ∈ s.callers, ∃ v ∈ visits, phase = .finished v.result := by
    intro phase hmem
    obtain ⟨i, hi⟩ := List.mem_iff_getElem?.mp hmem
    match phase, hs phase hmem with
    | .finished result, _ =>
      obtain ⟨v, hv, -, rfl⟩ := (h.ended i result).mp hi
      exact ⟨v, hv, rfl⟩
  have hcurrent : current = none := h.current_eq_none hs.isHeld
  obtain ⟨phase, hmem⟩ := List.exists_mem_of_ne_nil _ hne
  obtain ⟨v, hv, -⟩ := hfinished phase hmem
  obtain ⟨first, later, rfl⟩ := List.exists_cons_of_ne_nil (List.ne_nil_of_mem hv)
  obtain ⟨-, houtcomes, hlength⟩ := h.after_first hg htoken ht hx
  refine ⟨?_, fun phase hmem => ?_⟩
  · rw [h.log_exchanges, hcurrent]
    simpa [soFar] using hlength
  · obtain ⟨v, hv, rfl⟩ := hfinished phase hmem
    rw [Visit.result, houtcomes v hv]
    rfl

end OneInstant

end Account

/-- The clock is read as it stands: at the start, or where it has been moved to. -/
theorem mem_of_reading {schedule : List Move} {t : Instant} {j : Nat}
    (h : (j, reading t) ∈ s.exchanges a answer schedule) : t = s.now ∨ .clock t ∈ schedule := by
  induction schedule generalizing s with
  | nil => cases h
  | cons m schedule ih =>
    cases m with
    | clock now =>
      obtain rfl | hlater := ih h
      · exact .inr List.mem_cons_self
      · exact .inr (List.mem_cons_of_mem _ hlater)
    | caller i =>
      rw [exchanges, List.mem_append, List.mem_map] at h
      obtain ⟨x, hx, hj⟩ | h := h
      · cases hj
        exact .inl (reading_eq_now (Option.mem_toList.mp hx))
      · rw [← (step_kind a answer s i).now_eq]
        exact (ih h).imp_right (List.mem_cons_of_mem _)

theorem AtOneInstant.allAt {schedule : List Move} (h : AtOneInstant schedule) :
    AllAt s.now ((s.exchanges a answer schedule).map (·.2)) := by
  intro t ht
  obtain ⟨⟨j, x⟩, hx, rfl⟩ := List.mem_map.mp ht
  refine (mem_of_reading hx).resolve_right fun hclock => ?_
  obtain ⟨i, hi⟩ := h _ hclock
  cases hi

/-- A caller ends with the token that it leaves behind, or with an error and leaves what it
found. -/
theorem Step.of_finished {s' : Sharing σ} {result : Outcome (Except TokenFetchError String)}
    (h : Step a answer i s xs s') (hs : s.callers[i]? ≠ some (.finished result))
    (hs' : s'.callers[i]? = some (.finished result)) :
    ∃ outcome, result = resultOf outcome ∧ s'.kept = tokenAfter s.kept outcome := by
  cases h with
  | idle => exact absurd hs' hs
  | enter hw hf =>
    rw [getElem?_setPhase_self hw] at hs'
    cases hs'
  | @proceed work phase work' xs site hw hp =>
    obtain ⟨old, hold, -⟩ := exists_phase hw
    have hphase : (s.setPhase i phase).callers[i]? = some phase := getElem?_setPhase_self hold
    exact absurd (Option.some.inj (hphase.symm.trans hs')) (work?_ne_finished hp result)
  | @leave work outcome hw ho =>
    obtain ⟨old, hold, -⟩ := exists_phase hw
    have hphase : (s.release i outcome).callers[i]? = some (.finished (resultOf outcome)) :=
      getElem?_setPhase_self hold
    cases hphase.symm.trans hs'
    exact ⟨outcome, rfl, rfl⟩

/-- A step of one caller does nothing to the others, and changes the token only for the one with
which the caller ends. -/
theorem Step.effect {s' : Sharing σ} (h : Step a answer i s xs s') :
    (∀ j, j ≠ i → s'.callers[j]? = s.callers[j]?) ∧
      (s'.kept = s.kept ∨ ∃ token : AccessToken, s'.kept = some token ∧
        s'.callers[i]? = some (.finished (.done (.ok token.text)))) := by
  have hothers (phase : Caller.Phase) (j : Nat) (hj : j ≠ i) :
      (s.setPhase i phase).callers[j]? = s.callers[j]? := getElem?_setPhase_of_ne hj.symm
  cases h with
  | idle => exact ⟨fun _ _ => rfl, .inl rfl⟩
  | enter => exact ⟨hothers _, .inl rfl⟩
  | proceed => exact ⟨hothers _, .inl rfl⟩
  | @leave work outcome hw =>
    refine ⟨hothers _, ?_⟩
    obtain ⟨old, hold, -⟩ := exists_phase hw
    match outcome with
    | .done (.ok token) => exact .inr ⟨token, rfl, getElem?_setPhase_self hold⟩
    | .done (.error _) | .broken | .exhausted => exact .inl rfl

/-- For any number of callers, in any order of their steps, wherever the clock is moved and
whatever the site answers:

* one message at most is on its way;
* the callers have the token one after the other, and each visit follows the course that the token
  it finds and the clock prescribe: a token is fetched exactly if none is found or if the one found
  is expiring, and where the calendar does not reach far enough to tell, the caller breaks off;
* a step of one caller does nothing to the others, and changes the token only for the one with
  which the caller ends; whoever ends with a token ends with the one that is kept then, and whoever
  ends with an error leaves the token as it was;
* callers at one instant that start without a token, the first of whom is granted one for thirty
  seconds or more, send one message and all get that token. In a leap second more than thirty
  seconds must be granted, since the second itself is not counted on the way back. -/
theorem single_flight (a : Config.ListingAccess) (answer : Post → σ → Option Http.Answer × σ)
    (count : Nat) (kept : Option AccessToken) (now : Instant) (site : σ) (schedule : List Move) :
    let s₀ := Sharing.start count kept now site
    let s := s₀.moves a answer schedule
    let log := s₀.exchanges a answer schedule
    (∀ i j, s.Asks i → s.Asks j → i = j) ∧
    (∃ visits current, Account a answer kept site log s visits current) ∧
    (∀ i, let s' := s.step a answer i
      (∀ j, j ≠ i → s'.callers[j]? = s.callers[j]?) ∧
      (s'.kept = s.kept ∨ ∃ token : AccessToken, s'.kept = some token ∧
        s'.callers[i]? = some (.finished (.done (.ok token.text)))) ∧
      ∀ result, s.callers[i]? ≠ some (.finished result) →
        s'.callers[i]? = some (.finished result) →
          (∀ text, result = .done (.ok text) →
            ∃ token : AccessToken, s'.kept = some token ∧ token.text = text) ∧
          ∀ e, result = .done (.error e) → s'.kept = s.kept) ∧
    ∀ g token, 0 < count → kept = none → AtOneInstant schedule → Granted a answer now site g →
      30 ≤ g.seconds → now.nanos < nanosPerSecond ∨ 30 < g.seconds → g.toToken now = .ok token →
        (messages (log.map (·.2))).length ≤ 1 ∧
        (∀ i, s.Asks i → messages (log.map (·.2)) = []) ∧
        (s.Ended → (messages (log.map (·.2))).length = 1 ∧
          ∀ phase ∈ s.callers, phase = .finished (.done (.ok g.token))) ∧
        ∃ more, AtOneInstant more ∧ (s.moves a answer more).Ended := by
  intro s₀ s log
  obtain ⟨visits, current, haccount⟩ :=
    (Account.start a answer count kept now site).moves schedule
  rw [List.nil_append] at haccount
  refine ⟨?_, ⟨visits, current, haccount⟩, ?_, ?_⟩
  · intro i j hi hj
    obtain ⟨p, next, hwork⟩ := hi.work
    obtain ⟨p', next', hwork'⟩ := hj.work
    exact haccount.holder_unique hwork hwork'
  · intro i s'
    have hstep := step_kind a answer s i
    obtain ⟨hothers, hkept⟩ := hstep.effect
    refine ⟨hothers, hkept, fun result hs hs' => ?_⟩
    obtain ⟨outcome, rfl, hafter⟩ := hstep.of_finished hs hs'
    exact ⟨fun text htext => hafter ▸ exists_tokenAfter htext,
      fun e he => hafter.trans (tokenAfter_of_error he)⟩
  · rintro g token hcount rfl hinstant hgranted hseconds hleap htoken
    obtain ⟨hfresh, htext⟩ := g.fresh_of_toToken htoken hseconds hleap
    have hat : AllAt now (log.map (·.2)) := hinstant.allAt
    have hne : s.callers ≠ [] := by
      rw [← List.length_pos_iff, length_moves]
      simpa [s₀, Sharing.start] using hcount
    obtain ⟨hle, hasks⟩ := haccount.messages_length_le hgranted htoken hfresh hat
    refine ⟨hle, hasks, fun hended => ?_, exists_ended a answer s⟩
    rw [← htext]
    exact haccount.all_granted hgranted htoken hfresh hat hended hne

end Callers

section Sample

attribute [local instance] HostNames.plain

def sampleAccess : Config.ListingAccess :=
  { authUrl := "http://a/", userId := "u", clientKey := "c", signingKeyId := "k",
    privateKey := samplePem }

/-- The last second of a year that ends in a leap second. -/
def beforeLeap : Instant := (Instant.ofUnix? 1483228799 0).getD .epoch

def leapSecond : Instant := (Instant.ofUnix? 1483228799 nanosPerSecond).getD .epoch

/-- When the assertions of both instants end. -/
def sampleExpiry : Instant := (Instant.ofUnix? 1483229399 0).getD .epoch

def sampleGrant (sent : Nat) : Grant := ⟨s!"t{sent + 1}", 30⟩

/-- The token of a grant at either instant. -/
def sampleToken (sent : Nat) : AccessToken :=
  ⟨(sampleGrant sent).token, (Instant.ofUnix? 1483228829 0).getD .epoch⟩

def grantingAnswer (sent : Nat) : Http.Answer :=
  ⟨200, Text.Utf8.encodeChars (Json.printInOrder
    [("access_token", .string (sampleGrant sent).token),
      ("expires_in", .integer (sampleGrant sent).seconds)])⟩

/-- A site that grants every message another token, and counts them. -/
def granting (_ : Post) (sent : Nat) : Option Http.Answer × Nat :=
  (some (grantingAnswer sent), sent + 1)

theorem sends_sample (h : Assertion.expiry? now = some sampleExpiry) :
    ∃ p, Sends sampleAccess now p := by
  have hsigned : (sampleKey.sign? (SignedToken.octets (SignedToken.message
      (Assertion.header sampleAccess) (Assertion.claims sampleAccess sampleExpiry)))).isSome :=
    RsaKey.isSome_sign? 1024 (by decide +kernel) (by decide +kernel) (by decide +kernel)
      (by decide +kernel)
  obtain ⟨signature, hsignature⟩ := Option.isSome_iff_exists.mp hsigned
  exact ⟨_, sampleExpiry, _, h, Assertion.sign_of_read read_samplePem hsignature, rfl⟩

theorem granted_sample {sent : Nat} (h : Assertion.expiry? now = some sampleExpiry)
    (hsent : sent < 2) : Granted sampleAccess granting now sent (sampleGrant sent) := by
  obtain ⟨p, hp⟩ := sends_sample h
  have hparts : ∀ sent < 2, (Grant.ofAnswer (grantingAnswer sent)).toOption.map
      (fun g => (g.token, g.seconds)) = some ((sampleGrant sent).token, 30) := by
    decide +kernel
  exact ⟨p, _, hp, rfl, Grant.ofAnswer_eq_ok (hparts sent hsent)⟩

/-- In the second before, two callers get one token in one message. -/
theorem single_flight_sample : ∃ schedule, AtOneInstant schedule ∧
    let s₀ := Sharing.start 2 none beforeLeap 0
    let s := s₀.moves sampleAccess granting schedule
    s.Ended ∧
      (messages ((s₀.exchanges sampleAccess granting schedule).map (·.2))).length = 1 ∧
      ∀ phase ∈ s.callers, phase = .finished (.done (.ok "t1")) := by
  have hgranted : Granted sampleAccess granting beforeLeap 0 (sampleGrant 0) :=
    granted_sample rfl (by decide)
  have hnil : AtOneInstant [] := fun _ => nofun
  obtain ⟨-, -, -, hall⟩ := single_flight sampleAccess granting 2 none beforeLeap 0 []
  obtain ⟨-, -, -, more, hmore, hended⟩ := hall (sampleGrant 0) (sampleToken 0) (by decide) rfl
    hnil hgranted (by decide) (.inl (by decide)) rfl
  obtain ⟨-, -, -, hall⟩ := single_flight sampleAccess granting 2 none beforeLeap 0 more
  obtain ⟨-, -, hone, -⟩ := hall (sampleGrant 0) (sampleToken 0) (by decide) rfl hmore hgranted
    (by decide) (.inl (by decide)) rfl
  exact ⟨more, hmore, hended, hone hended⟩

theorem answered_granting {sent sent' : Nat} (h : Answered granting sent xs sent') :
    sent' = sent + (messages xs).length := by
  induction h with
  | nil => rfl
  | read t h ih => exact ih
  | sent p h ih => rw [ih, messages_message, List.length_cons, granting]; omega

/-- The callers after the turn of the first one in a leap second. -/
def afterFirst : Sharing Nat :=
  ⟨[.finished (.done (.ok "t1")), .waiting], some (sampleToken 0), leapSecond, 1⟩

def afterSecond : Sharing Nat :=
  ⟨[.finished (.done (.ok "t1")), .finished (.done (.ok "t2"))], some (sampleToken 1), leapSecond,
    2⟩

theorem moves_first : (Sharing.start 2 none leapSecond 0).moves sampleAccess granting
    (List.replicate stepsPerCaller (.caller 0)) = afterFirst := by
  have hgranted : Granted sampleAccess granting leapSecond 0 (sampleGrant 0) :=
    granted_sample rfl (by decide)
  have htoken : (sampleGrant 0).toToken leapSecond = .ok (sampleToken 0) := rfl
  obtain ⟨p, reply, hplays, hanswered⟩ := hgranted.plays
  rw [htoken] at hplays
  have hat : AllAt leapSecond [reading leapSecond, message p reply, reading leapSecond] := by simp
  exact moves_of_waiting (s := .start 2 none leapSecond 0) rfl rfl hplays hanswered hat
    (by simp [stepsPerCaller])

theorem expiring_sample : (sampleToken 0).isExpiring? leapSecond = some true := by decide

theorem moves_second : afterFirst.moves sampleAccess granting
    (List.replicate stepsPerCaller (.caller 1)) = afterSecond := by
  have hgranted : Granted sampleAccess granting leapSecond 1 (sampleGrant 1) :=
    granted_sample rfl (by decide)
  have htoken : (sampleGrant 1).toToken leapSecond = .ok (sampleToken 1) := rfl
  obtain ⟨p, reply, hplays, hanswered⟩ := hgranted.plays
  rw [htoken] at hplays
  let xs := [reading leapSecond, reading leapSecond, message p reply, reading leapSecond]
  have hfound : (obtainToken sampleAccess (some (sampleToken 0))).run.Plays xs
      (.done (.ok (sampleToken 1))) := by
    rw [obtainToken_some_eq]
    refine plays_now.mpr ⟨leapSecond, _, rfl, ?_⟩
    rw [expiring_sample]
    exact hplays
  have hat : AllAt leapSecond xs := by simp [xs]
  exact moves_of_waiting (s := afterFirst) rfl rfl hfound (.read _ hanswered) hat
    (by simp [stepsPerCaller, xs])

/-- In the leap second itself, each of two callers sends a message and gets a token of its own: what
is granted to the first one for thirty seconds is expiring at once. -/
theorem leap_second_two_messages :
    let s₀ := Sharing.start 2 none leapSecond 0
    let s := s₀.moves sampleAccess granting (inTurn 2)
    AtOneInstant (inTurn 2) ∧ Granted sampleAccess granting leapSecond 0 ⟨"t1", 30⟩ ∧
      (sampleGrant 0).toToken leapSecond = .ok (sampleToken 0) ∧
      (sampleToken 0).isExpiring? leapSecond = some true ∧
      s.Ended ∧
      (messages ((s₀.exchanges sampleAccess granting (inTurn 2)).map (·.2))).length = 2 ∧
      s.results = [.ok "t1", .ok "t2"] := by
  intro s₀ s
  have hturns : inTurn 2 = List.replicate stepsPerCaller (.caller 0) ++
      List.replicate stepsPerCaller (.caller 1) := rfl
  have hs : s = afterSecond := by
    rw [show s = s₀.moves sampleAccess granting (inTurn 2) from rfl, hturns, moves_append,
      moves_first, moves_second]
  obtain ⟨visits, current, haccount⟩ := (Account.start sampleAccess granting 2 none leapSecond
    0).moves (inTurn 2)
  have hsent := answered_granting haccount.answered
  rw [List.nil_append, Nat.zero_add] at hsent
  refine ⟨atOneInstant_inTurn 2, granted_sample rfl (by decide), rfl, expiring_sample, ?_, ?_, ?_⟩
  · rw [hs]
    decide
  · rw [← hsent, show s₀.moves sampleAccess granting (inTurn 2) = afterSecond from hs, afterSecond]
  · rw [hs]
    rfl

end Sample

end Sharing

end GroupCalendar.Listing
