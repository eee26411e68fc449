import GroupCalendar.Access.Credentials
import GroupCalendar.Proofs.Access.Token
import GroupCalendar.Proofs.Crypto.PasswordHash
import GroupCalendar.Proofs.Program.Returns
import GroupCalendar.Proofs.Record
import GroupCalendar.Proofs.Store.Quiet
import GroupCalendar.Proofs.Store.Session

/-! # Chains of refreshed tokens

A client that has once given its secret gets new tokens for its latest refresh token, again and
again. Meanwhile records of users come and go. All tokens of the chain are for the client that began
it, and the chain can be continued for 30 days from its last link, while the client is on record.
-/

namespace GroupCalendar

namespace Record

variable {ν ε ρ : Type} {fields : List (Field ν ε ρ)} {skip : ν → Except ε Unit}

/-- Values that can be set or skipped one by one can all be. -/
theorem exists_setNamed {values : List (String × ν)}
    (hset : ∀ f ∈ fields, ∀ v, (f.name, v) ∈ values → ∀ r, ∃ r', f.set v r = .ok r')
    (hskip : ∀ name v, (name, v) ∈ values → skip v = .ok ()) (r : ρ) :
    ∃ r', setNamed fields skip values r = .ok r' := by
  induction values generalizing r with
  | nil => exact ⟨r, rfl⟩
  | cons field rest ih =>
    obtain ⟨name, v⟩ := field
    have hrest := ih (fun f hf v hv => hset f hf v (List.mem_cons_of_mem _ hv))
      (fun name v hv => hskip name v (List.mem_cons_of_mem _ hv))
    simp only [setNamed]
    split
    · next f hf =>
      obtain rfl : f.name = name := by simpa using List.find?_some hf
      obtain ⟨r₁, hr₁⟩ := hset f (List.mem_of_find?_eq_some hf) v List.mem_cons_self r
      rw [hr₁]
      exact hrest r₁
    · rw [hskip name v List.mem_cons_self]
      exact hrest r

end Record

namespace Access

open Store Service

variable {ω : Type} {source : Source ω} {m : Memory} {w : ω} {a : Authority} {client : String}
  {now issued : Instant} {pair : TokenPair}

section Users

/-- The record of a user has two texts, and no number in it that cannot be read. -/
structure IsUser (item : Item) : Prop where
  texts : ∀ name ∈ ["clientId", "hashedClientSecret"],
    (item.get? name).isSome ∧ ∀ v, (name, v) ∈ item → ∃ text, v = .text text
  numbers : ∀ name v, (name, v) ∈ item → v.checkNumbers = .ok ()

theorem IsUser.exists_user {item : Item} (h : IsUser item) :
    ∃ user, User.ofItem item = .ok user := by
  have hset : ∀ f ∈ User.fields, ∀ v, (f.name, v) ∈ item →
      ∀ user, ∃ user', f.set v user = .ok user' := by
    intro f hf v hv user
    obtain ⟨text, rfl⟩ := (h.texts f.name (List.mem_map_of_mem hf)).2 v hv
    rcases List.mem_cons.mp hf with rfl | hf
    · exact ⟨_, rfl⟩
    · obtain rfl := List.mem_singleton.mp hf
      exact ⟨_, rfl⟩
  obtain ⟨user, hread⟩ := Record.exists_setNamed hset h.numbers {}
  have hpresent :
      User.fields.find? (fun f => f.required && (Fields.get? f.name item).isNone) = none := by
    refine List.find?_eq_none.mpr fun f hf => ?_
    have hsome := (h.texts f.name (List.mem_map_of_mem hf)).1
    simp [Option.isNone_iff_eq_none, Option.isSome_iff_ne_none.mp hsome]
  refine ⟨user, ?_⟩
  rw [User.ofItem, Attribute.decodeRecord, Record.readNamed, hread]
  simp only [bind, Except.bind, hpresent]
  rfl

end Users

section Lookup

/-- The user in a reply of the store. -/
def User.ofReply : Except StoreError (Option Item) → Except StoreError (Option User)
  | .error e => .error e
  | .ok none => .ok none
  | .ok (some item) => (User.ofItem item).map some

theorem User.find_run (source : Source ω) (table client : String) (m : Memory) (w : ω) :
    (User.find table client).run.run (answer source) (m, w) =
      (.done (User.ofReply (m.getItem table (Item.key idName client)).1),
        (m.getItem table (Item.key idName client)).2, w) := by
  have hget : (Task.getItem table (Item.key idName client)).run.run (answer source) (m, w) =
      (.done (m.getItem table (Item.key idName client)).1,
        (m.getItem table (Item.key idName client)).2, w) := rfl
  cases hreply : (m.getItem table (Item.key idName client)).1 with
  | error e => exact Task.run_bind_error (hreply ▸ hget)
  | ok item? =>
    refine (Task.run_bind_ok (hreply ▸ hget)).trans ?_
    cases item? with
    | none => rfl
    | some item =>
      change (some <$> Task.ofExcept (User.ofItem item)).run.run (answer source) _ = _
      rw [User.ofReply]
      cases User.ofItem item <;> rfl

/-- A client is known by a record that the store has. -/
def CredentialError.ofUser : Except StoreError (Option User) → Except CredentialError User
  | .error e => .error (.store e)
  | .ok none => .error .invalidCredentials
  | .ok (some user) => .ok user

theorem Authority.find_run (source : Source ω) (a : Authority) (client : String) (m : Memory)
    (w : ω) :
    (a.find client).run.run (answer source) (m, w) =
      (.done (CredentialError.ofUser
          (User.ofReply (m.getItem a.users (Item.key User.idName client)).1)),
        (m.getItem a.users (Item.key User.idName client)).2, w) := by
  have hfind := Task.run_mapError CredentialError.store
    (User.find_run source a.users client m w)
  cases hreply : User.ofReply (m.getItem a.users (Item.key User.idName client)).1 with
  | error e =>
    rw [hreply] at hfind
    exact Task.run_bind_error hfind
  | ok user? =>
    rw [hreply] at hfind
    refine (Task.run_bind_ok hfind).trans ?_
    cases user? <;> rfl

/-- The table of users is kept by their ids, and no fault is set. -/
structure Keeps (users : String) (m : Memory) : Prop where
  quiet : m.Quiet
  keyName_eq : m.schema.keyName users = User.idName
  users : ∀ key item, m.get? users key = some item → IsUser item

theorem Keeps.of_same {users : String} {m' : Memory} (h : Keeps users m) (hs : m.Same m')
    (hq : m'.Quiet) : Keeps users m' where
  quiet := hq
  keyName_eq := hs.schema_eq ▸ h.keyName_eq
  users key item hitem := h.users key item (hs.get?_eq users key ▸ hitem)

/-- A client is found if there is a record of it, and the tables stay as they are. -/
theorem Keeps.find_run (source : Source ω) (h : Keeps a.users m) (client : String) (w : ω) :
    ∃ x m', (a.find client).run.run (answer source) (m, w) = (.done x, m', w) ∧ m.Same m' ∧
      Keeps a.users m' ∧
      (((m.get? a.users client).isSome ∧ ∃ user, x = .ok user) ∨
        (m.get? a.users client = none ∧ x = .error .invalidCredentials)) := by
  have hsame := m.getItem_same a.users (Item.key User.idName client)
  have hquiet := h.quiet.answer (.getItem a.users (Item.key User.idName client))
  refine ⟨_, _, a.find_run source client m w, hsame, h.of_same hsame hquiet, ?_⟩
  rw [h.quiet.getItem h.keyName_eq]
  cases hitem : m.get? a.users client with
  | none => exact .inr ⟨rfl, rfl⟩
  | some item =>
    obtain ⟨user, huser⟩ := (h.users client item hitem).exists_user
    exact .inl ⟨rfl, user, by rw [User.ofReply, huser]; rfl⟩

/-- Records of users may be added and deleted. -/
theorem Keeps.batchWrite {users : String} {e : Write} (h : Keeps users m)
    (he : ∀ item, e = .put item → IsUser item) : Keeps users (m.batchWrite users [e]).2 := by
  obtain ⟨done, hdone, hwrote, -⟩ := m.batchWrite_wrote users [e]
  refine ⟨h.quiet.of_batchWrite users [e], hwrote.schema_eq ▸ h.keyName_eq,
    fun key item hitem => ?_⟩
  rcases hwrote.get?_cases users key with ⟨hsame, -⟩ | ⟨-, put, hput, -, hnew⟩ | ⟨-, -, -, -, hgone⟩
  · exact h.users key item (hsame ▸ hitem)
  · obtain rfl : put = item := Option.some.inj (hnew.symm.trans hitem)
    exact he put (List.mem_singleton.mp (hdone.subset hput)).symm
  · cases hgone.symm.trans hitem

end Lookup

section Tokens

/-- What is said of the tokens that have been issued. -/
theorem validate_of_issue? {t : Tokens} (h1970 : 0 ≤ issued.seconds)
    (h : t.issue? issued client = some pair) (now : Instant) (asked : TokenUse) :
    t.validate now asked pair.access =
        Tokens.verdict client .access (issued.seconds + 15 * 60) now asked ∧
      t.validate now asked pair.refresh =
        Tokens.verdict client .refresh (issued.seconds + 30 * 86400) now asked := by
  obtain ⟨accessExpires, haccess, h⟩ := Option.bind_eq_some_iff.mp h
  obtain ⟨refreshExpires, hrefresh, h⟩ := Option.bind_eq_some_iff.mp h
  obtain rfl := Option.some.inj h
  exact ⟨Tokens.validate_issued h1970 (by decide) haccess now asked,
    Tokens.validate_issued h1970 (by decide) hrefresh now asked⟩

/-- The end of issuing tokens, which breaks off without them. -/
def Authority.issueOutcome (a : Authority) (now : Instant) (client : String) :
    Outcome (Except CredentialError TokenPair) :=
  match a.tokens.issue? now client with
  | some pair => .done (.ok pair)
  | none => .broken

theorem Authority.issue_run (a : Authority) (now : Instant) (client : String) (s : Memory × ω) :
    (a.issue now client).run.run (answer source) s = (a.issueOutcome now client, s) := by
  rw [issue, issueOutcome]
  cases a.tokens.issue? now client <;> rfl

theorem Authority.issueOutcome_eq_done_iff :
    a.issueOutcome now client = .done (.ok pair) ↔ a.tokens.issue? now client = some pair := by
  rw [issueOutcome]
  cases a.tokens.issue? now client <;> simp

variable {token : String}

theorem refresh_run_of_valid (h : a.tokens.validate now .refresh token = .ok client)
    (s : Memory × ω) :
    (a.refresh now token).run.run (answer source) s =
      (do let _ ← a.find client; a.issue now client : Task _ _).run.run (answer source) s := by
  rw [Authority.refresh, h]
  rfl

theorem refresh_run_of_error {e : TokenError} (h : a.tokens.validate now .refresh token = .error e)
    (s : Memory × ω) :
    (a.refresh now token).run.run (answer source) s =
      (.done (.error .invalidCredentials), s) := by
  rw [Authority.refresh, h]
  rfl

end Tokens

section Chain

/-- What happens in the course of a chain. -/
inductive Happening where
  /-- A record of a user is added or deleted. -/
  | write (w : Write)
  /-- The client asks for new tokens at an instant. -/
  | refresh (now : Instant)

/-- Only records of users are added, and the clock is not before 1970. -/
def Happening.Sound : Happening → Prop
  | .write w => ∀ item, w = .put item → IsUser item
  | .refresh now => 0 ≤ now.seconds

/-- The latest tokens and the instant they were issued at, with the store and its surroundings. -/
structure Chain (ω : Type) where
  store : Memory × ω
  pair : TokenPair
  issued : Instant

/-- New tokens take the place of the ones that they were asked for with. -/
def Chain.step (source : Source ω) (a : Authority) (c : Chain ω) : Happening → Chain ω
  | .write w => { c with store := ((c.store.1.batchWrite a.users [w]).2, c.store.2) }
  | .refresh now =>
    match (a.refresh now c.pair.refresh).run.run (answer source) c.store with
    | (.done (.ok pair), s) => ⟨s, pair, now⟩
    | (_, s) => { c with store := s }

/-- The latest tokens were issued to the client. -/
structure Chain.Linked (a : Authority) (client : String) (c : Chain ω) : Prop where
  keeps : Keeps a.users c.store.1
  from1970 : 0 ≤ c.issued.seconds
  issue_eq : a.tokens.issue? c.issued client = some c.pair

variable {c : Chain ω}

/-- The end of asking for new tokens at an instant. -/
def Chain.outcome (a : Authority) (client : String) (c : Chain ω) (now : Instant) :
    Outcome (Except CredentialError TokenPair) :=
  if now.seconds < c.issued.seconds + 30 * 86400 ∧ (c.store.1.get? a.users client).isSome then
    a.issueOutcome now client
  else .done (.error .invalidCredentials)

theorem Chain.Linked.refresh_run (source : Source ω) (h : c.Linked a client)
    (hclient : client.isEmpty = false) (now : Instant) :
    ∃ s, (a.refresh now c.pair.refresh).run.run (answer source) c.store =
      (c.outcome a client now, s) ∧ Keeps a.users s.1 := by
  have hverdict := (validate_of_issue? h.from1970 h.issue_eq now .refresh).2
  by_cases hfresh : now.seconds < c.issued.seconds + 30 * 86400
  · have hvalid : a.tokens.validate now .refresh c.pair.refresh = .ok client := by
      rw [hverdict, Tokens.verdict, if_neg (by simp [hclient]), if_pos hfresh]
    rw [refresh_run_of_valid hvalid]
    obtain ⟨x, m', hfind, -, hkeeps, ⟨hknown, user, rfl⟩ | ⟨hunknown, rfl⟩⟩ :=
      h.keeps.find_run source client c.store.2
    · refine ⟨(m', c.store.2), (Task.run_bind_ok hfind).trans ?_, hkeeps⟩
      rw [Chain.outcome, if_pos ⟨hfresh, hknown⟩, Authority.issue_run]
    · refine ⟨(m', c.store.2), (Task.run_bind_error hfind).trans ?_, hkeeps⟩
      rw [Chain.outcome, if_neg (by simp [hunknown])]
  · have hexpired : a.tokens.validate now .refresh c.pair.refresh = .error .expired := by
      rw [hverdict, Tokens.verdict, if_neg (by simp [hclient]), if_neg hfresh]
    refine ⟨c.store, ?_, h.keeps⟩
    rw [refresh_run_of_error hexpired, Chain.outcome, if_neg (mt And.left hfresh)]

theorem Chain.Linked.step (h : c.Linked a client) (hclient : client.isEmpty = false)
    {e : Happening} (he : e.Sound) : (c.step source a e).Linked a client := by
  cases e with
  | write w => exact ⟨h.keeps.batchWrite he, h.from1970, h.issue_eq⟩
  | refresh now =>
    obtain ⟨s, hrun, hkeeps⟩ := h.refresh_run source hclient now
    simp only [Chain.step, hrun]
    split
    · next pair s' heq =>
      obtain ⟨houtcome, rfl⟩ := Prod.mk.inj heq
      refine ⟨hkeeps, he, ?_⟩
      rw [Chain.outcome] at houtcome
      split at houtcome
      · exact Authority.issueOutcome_eq_done_iff.mp houtcome
      · cases houtcome
    · next o s' _ heq =>
      obtain ⟨-, rfl⟩ := Prod.mk.inj heq
      exact ⟨hkeeps, h.from1970, h.issue_eq⟩

theorem Chain.Linked.run (h : c.Linked a client) (hclient : client.isEmpty = false)
    {es : List Happening} (hes : ∀ e ∈ es, e.Sound) : (es.foldl (Chain.step source a) c).Linked a client := by
  induction es generalizing c with
  | nil => exact h
  | cons e es ih =>
    obtain ⟨he, hes⟩ := List.forall_mem_cons.mp hes
    exact ih (h.step hclient he) hes

section Sample

end Sample

end Chain

end Access

end GroupCalendar
