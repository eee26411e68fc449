import GroupCalendar.Api.Router
import GroupCalendar.Proofs.Text.Words

/-! # The gate of the API

A request opens the gate with an access token that is valid at the instant. Without one the answer
is known before anything is looked up, unless the request asks for tokens.
-/

namespace GroupCalendar.Api

open Http Text

variable {c : Config.Api} {now : Instant} {r : Request}

section Header

/-- The value of the first header with a name, in letters of any case. -/
def FirstHeader (r : Request) (name value : String) : Prop :=
  ∃ before key after, r.headers = before ++ (key, value) :: after ∧
    Request.sameName key name ∧ ∀ h ∈ before, ¬ Request.sameName h.1 name

/-- The first header of authorization is a text of two words, `bearer` in letters of any case and
the token. -/
def Presents (r : Request) (token : String) : Prop :=
  ∃ value scheme, FirstHeader r "authorization" value ∧
    (∀ c ∈ value.toList, Request.isHeaderText c) ∧
    Spells [scheme, token.toList] value.toList ∧ scheme.map Char.toLower = "bearer".toList

theorem header?_eq_some_iff {name value : String} :
    r.header? name = some value ↔
      FirstHeader r name value ∧ ∀ c ∈ value.toList, Request.isHeaderText c := by
  have hfirst : FirstHeader r name value ↔
      ∃ key, r.headers.find? (fun h => Request.sameName h.1 name) = some (key, value) := by
    simp only [FirstHeader, List.find?_eq_some_iff_append, Bool.not_eq_true', Bool.not_eq_true]
    constructor
    · rintro ⟨before, key, after, h, hkey, hbefore⟩
      exact ⟨key, hkey, before, after, h, hbefore⟩
    · rintro ⟨key, hkey, before, after, h, hbefore⟩
      exact ⟨before, key, after, h, hkey, hbefore⟩
  rw [hfirst, ← List.all_eq_true, Request.header?]
  cases hfind : r.headers.find? (fun h => Request.sameName h.1 name) with
  | none => simp
  | some h =>
    obtain ⟨key, sent⟩ := h
    cases htext : sent.toList.all Request.isHeaderText <;> grind

theorem bearerToken?_eq_some_iff {token : String} :
    bearerToken? r = some token ↔ Presents r token := by
  constructor
  · intro h
    obtain ⟨value, hvalue, h⟩ := Option.bind_eq_some_iff.mp h
    obtain ⟨hfirst, htext⟩ := header?_eq_some_iff.mp hvalue
    split at h
    · next scheme read hwords =>
      split at h
      · next hscheme =>
        obtain rfl := Option.some.inj h
        refine ⟨value, scheme, hfirst, htext, words_eq_iff.mp ?_, hscheme⟩
        rw [hwords, String.toList_ofList]
      · cases h
    · cases h
  · rintro ⟨value, scheme, hfirst, htext, hspells, hscheme⟩
    have hvalue : r.header? "authorization" = some value :=
      header?_eq_some_iff.mpr ⟨hfirst, htext⟩
    simp only [bearerToken?, hvalue, Option.bind_eq_bind, Option.bind_some,
      words_eq_iff.mpr hspells, if_pos hscheme, String.ofList_toList]

theorem authorized_iff :
    authorized c now r ↔
      ∃ token client, Presents r token ∧
        c.authority.tokens.validate now .access token = .ok client := by
  simp only [← bearerToken?_eq_some_iff, authorized]
  cases bearerToken? r with
  | none => simp
  | some token =>
    cases h : c.authority.tokens.validate now .access token <;> simp [h, Except.toOption]

end Header

section Routes

/-- The parts of the path of a request. -/
def path (r : Request) : List String :=
  r.segments.map String.ofList

/-- The paths of the events of a group: a page, the next event, and one event. -/
inductive EventsPath : List String → Prop
  | page (group) : EventsPath ["v1", "groups", group, "events"]
  | next (group) : EventsPath ["v1", "groups", group, "events", "next"]
  | event (group) {id} (named : id ≠ "") : EventsPath ["v1", "groups", group, "events", id]

/-- The paths of the requests for tokens. -/
def tokenPaths : List (List String) :=
  [["v1", "auth"], ["v1", "auth", "refresh"]]

theorem EventsPath.exists_endpoint (h : EventsPath (path r)) :
    ∃ e, Endpoint.ofSegments? r.segments = some e ∧ e.isProtected := by
  unfold path at h
  unfold Endpoint.ofSegments?
  generalize r.segments.map String.ofList = path at h
  cases h with
  | page group => exact ⟨_, rfl, rfl⟩
  | next group => exact ⟨_, rfl, rfl⟩
  | @event group id named =>
    by_cases hn : id = "next"
    · subst hn
      exact ⟨_, rfl, rfl⟩
    · simp [named, Endpoint.isProtected]

theorem path_mem_of_isPost {e : Endpoint} (h : Endpoint.ofSegments? r.segments = some e)
    (hp : e.isPost) : path r ∈ tokenPaths := by
  unfold path
  unfold Endpoint.ofSegments? at h
  split at h <;> grind [Endpoint.isPost, tokenPaths]

end Routes

/-- Only requests for tokens reach a task without a valid access token. -/
theorem Endpoint.respond_of_not_authorized {e : Endpoint} (ha : authorized c now r = false)
    (hm : e.isPost → r.method ≠ "POST") :
    ∃ response, e.respond c now r = .done response ∧
      (e.isProtected → response.status = .unauthorized) := by
  unfold Endpoint.respond
  by_cases hp : e.isProtected
  · simp [hp, ha, Response.problem]
  by_cases haccepts : e.accepts r.method
  · cases e with
    | health =>
      have hanswer : conclude (handle c now r .health) =
          .done (.json (.object [("status", .string "ok")])) := rfl
      simp [Endpoint.isProtected, haccepts, hanswer]
    | authenticate | refresh =>
      have hmethod : r.method = "POST" := by
        simpa [Endpoint.accepts, Endpoint.isPost] using haccepts
      exact absurd hmethod (hm rfl)
    | events | nextEvent | event => exact absurd rfl hp
  · simp [hp, haccepts]

/-- A request that may have its answer gets what is handled at its endpoint. -/
theorem respond_of_authorized {e : Endpoint} (he : Endpoint.ofSegments? r.segments = some e)
    (ha : authorized c now r) (hm : r.method = "GET") (haccepts : e.accepts "GET") :
    respond c now r = conclude (handle c now r e) := by
  have hmethod : ∀ response, forMethod "GET" response = response := fun _ => if_neg (by decide)
  simp only [respond, he, Endpoint.respond, ha, hm, haccepts, hmethod, Bool.not_true,
    Bool.and_false, Bool.false_eq_true, if_false, if_true]
  exact Program.bind_done _

/-- A request without a valid access token, which asks for no tokens either, has one answer
whatever the services would say; none of them is asked, so that their state stays. On the paths of
the events the answer is a refusal. -/
theorem unauthorized_sees_nothing (c : Config.Api) (now : Instant) (r : Request)
    (hroute : ¬ (r.method = "POST" ∧ path r ∈ tokenPaths))
    (htoken : ∀ token, Presents r token → ∀ client,
      c.authority.tokens.validate now .access token ≠ .ok client) :
    ∃ response : Response,
      (∀ {σ : Type} (handle : (q : Service.Request) → σ → Service.Reply q × σ) (s : σ),
        (respond c now r).run handle s = (.done response, s)) ∧
      (EventsPath (path r) → response.status = .unauthorized) := by
  have ha : authorized c now r = false := by
    rw [← Bool.not_eq_true, authorized_iff]
    rintro ⟨token, client, hpresents, hvalid⟩
    exact htoken token hpresents client hvalid
  cases he : Endpoint.ofSegments? r.segments with
  | none =>
    refine ⟨forMethod r.method (.problem .notFound), fun handle s => ?_, fun hpath => ?_⟩
    · rw [respond, he]
      rfl
    · obtain ⟨e, he', -⟩ := hpath.exists_endpoint
      simp [he] at he'
  | some e =>
    obtain ⟨response, hresponse, hstatus⟩ := e.respond_of_not_authorized ha fun hpost hmethod =>
      hroute ⟨hmethod, path_mem_of_isPost he hpost⟩
    refine ⟨forMethod r.method response, fun handle s => ?_, fun hpath => ?_⟩
    · rw [respond, he]
      simp only [hresponse]
      rfl
    · obtain ⟨e', he', hprotected⟩ := hpath.exists_endpoint
      obtain rfl : e = e' := Option.some.inj (he.symm.trans he')
      rw [forMethod]
      split <;> exact hstatus hprotected

section Sample

def sampleConfig : Config.Api where
  events := "events"
  index := "by-date"
  authority := ⟨"users", Text.Utf8.encode "secret", "issuer"⟩
  appUrl := { scheme := "http".toList, path := .plain [] }
  port := 8080

/-- A request for events that shows a text which is no token; a second header counts for
nothing. -/
def sampleRequest : Request where
  method := "GET"
  target := "/v1/groups/a/events?limit=1"
  headers := [("AUTHORIZATION", " bEARER  x.y"), ("authorization", "Bearer z")]

theorem unauthorized_sees_nothing_sample :
    Presents sampleRequest "x.y" ∧ ∃ response : Response, response.status = .unauthorized ∧
      ∀ {σ : Type} (handle : (q : Service.Request) → σ → Service.Reply q × σ) (s : σ),
        (respond sampleConfig .epoch sampleRequest).run handle s = (.done response, s) := by
  have hbearer : bearerToken? sampleRequest = some "x.y" := by decide +kernel
  have hinvalid : sampleConfig.authority.tokens.validate .epoch .access "x.y" =
      .error .invalid := rfl
  obtain ⟨response, hrun, hstatus⟩ := unauthorized_sees_nothing sampleConfig .epoch
    sampleRequest (by decide +kernel) (by
      intro token hpresents client
      obtain rfl := Option.some.inj (hbearer.symm.trans (bearerToken?_eq_some_iff.mpr hpresents))
      simp [hinvalid])
  have hpath : path sampleRequest = ["v1", "groups", "a", "events"] := by decide +kernel
  exact ⟨bearerToken?_eq_some_iff.mp hbearer, response, hstatus (hpath ▸ .page "a"), hrun⟩

/-- A token for access of the client `c`, issued by `i` with the secret `s` at the beginning of
1970. -/
def openToken : String :=
  "eyJ0eXAiOiJKV1QiLCJhbGciOiJIUzI1NiJ9." ++
    "eyJpc3MiOiJpIiwic3ViIjoiYyIsImlhdCI6MCwiZXhwIjo5MDAsInRva2VuX3VzZSI6ImFjY2VzcyJ9." ++
    "gc6QiytpMK998C6jXTfdyxw9fPO6nPCqwv2K6q-Zw3E"

def openConfig : Config.Api where
  events := "live"
  index := "byGroup"
  authority := ⟨"users", Text.Utf8.encode "s", "i"⟩
  appUrl := { scheme := "http".toList, host := some (.name ['h']), path := .segments [[]] }
  port := 8080

/-- A request with the token. -/
def openRequest (target : String) : Request where
  method := "GET"
  target
  headers := [("authorization", "Bearer " ++ openToken)]

theorem authorized_openRequest (target : String) :
    authorized openConfig .epoch (openRequest target) = true := by
  have hvalid : (openConfig.authority.tokens.validate .epoch .access openToken).toOption.isSome =
      true := by decide +kernel
  have hbearer : bearerToken? (openRequest "") = some openToken := by decide +kernel
  have htoken : bearerToken? (openRequest target) = some openToken := hbearer
  rw [authorized, htoken]
  exact hvalid

end Sample

end GroupCalendar.Api
