import GroupCalendar.Proofs.Api.Gate
import GroupCalendar.Proofs.Program.Contract

/-! # Errors as problems

An error is told by the details of a problem, which repeat the status. Two kinds of requests get an
answer without details: those with a method that the path does not have, and those for a single
event whose path has a part that is no text.
-/

namespace GroupCalendar

namespace Task

variable {ε ε' α β : Type} {bad : ε → Prop} {mid : α → Prop} {good : β → Prop}

/-- Whatever is replied, the task ends with a good value or a bad error, if it ends with any. -/
def Ends (t : Task ε α) (bad : ε → Prop) (good : α → Prop) : Prop :=
  t.run.Meets (.only fun _ => True) () fun x _ =>
    match x with
    | .ok a => good a
    | .error e => bad e

theorem Ends.bind {t : Task ε α} {f : α → Task ε β} (h : t.Ends bad mid)
    (hf : ∀ a, mid a → (f a).Ends bad good) : (t >>= f).Ends bad good := by
  refine Program.meets_bind.mpr (Program.Meets.mono h fun x _ hx => ?_)
  cases x with
  | ok a => exact hf a hx
  | error e => exact hx

theorem ends_ofExcept (x : Except ε α) {f : ε → ε'} {bad : ε' → Prop} (h : ∀ e, bad (f e)) :
    (ofExcept (x.mapError f)).Ends bad fun _ => True := by
  cases x with
  | ok a => trivial
  | error e => exact h e

theorem ends_mapError (t : Task ε α) {f : ε → ε'} {bad : ε' → Prop} (h : ∀ e, bad (f e)) :
    (mapError f t).Ends bad fun _ => True := by
  refine Program.meets_bind.mpr (t.run.meets_any _ fun x => ?_)
  cases x with
  | ok a => trivial
  | error e => exact h e

end Task

namespace Api

open Http

variable {c : Config.Api} {now : Instant} {r : Request} {e : Endpoint}

/-- The body is an object with the details of a problem of the response's status. -/
structure IsProblem (response : Response) : Prop where
  contentType : response.contentType = some "application/problem+json"
  body : ∃ members, response.body = .json (.object members) ∧
    Fields.get? "type" members = some (.string "about:blank") ∧
    Fields.get? "title" members = some (.string response.status.title) ∧
    Fields.get? "status" members = some (.integer response.status.code)

theorem isProblem_problem (status : Status) (detail : Option String) :
    IsProblem (.problem status detail) where
  contentType := rfl
  body := by
    cases detail with
    | none | some text => exact ⟨_, rfl, rfl, rfl, rfl⟩

theorem IsProblem.with_allow {response : Response} (h : IsProblem response)
    (allow : Option String) : IsProblem { response with allow } :=
  ⟨h.contentType, h.body⟩

theorem not_isProblem_text (status : Status) (s : String) :
    ¬ IsProblem (.text status s) := by
  intro h
  have hne : some "text/plain; charset=utf-8" ≠ some "application/problem+json" := by decide
  exact hne h.contentType

section Endpoints

/-- The parts of the path in which a fault is told in plain text. -/
def Endpoint.plainParts : Endpoint → List (List Char)
  | .nextEvent group => [group]
  | .event group id => [group, id]
  | _ => []

/-- The part is the encoding of a text. -/
def EncodesText (part : List Char) : Prop :=
  (Text.Utf8.decode? (Percent.decode part)).isSome

theorem ends_plainPathText {name : String} {part : List Char} (h : EncodesText part) :
    (plainPathText name part).Ends IsProblem fun _ => True := by
  obtain ⟨s, hs⟩ := Option.isSome_iff_exists.mp h
  rw [plainPathText, pathText, hs]
  trivial

theorem plainPathText_of_not_encodesText (name : String) {part : List Char}
    (h : ¬ EncodesText part) :
    ∃ s, plainPathText name part = Task.ofExcept (.error (.text .badRequest s)) := by
  rw [EncodesText, Option.not_isSome_iff_eq_none] at h
  rw [plainPathText, pathText, h]
  exact ⟨_, rfl⟩

theorem isProblem_ofEventsError (e : EventsError) : IsProblem (ofEventsError e) := by
  cases e with
  | invalidCursor | invalidLimit => exact isProblem_problem .badRequest (some _)
  | store | decode => exact isProblem_problem .internalError none

theorem isProblem_ofCredentialError (e : Access.CredentialError) :
    IsProblem (ofCredentialError e) := by
  cases e with
  | invalidCredentials => exact isProblem_problem .unauthorized none
  | store => exact isProblem_problem .internalError none

theorem eventResponse_ends (e : Option Event) :
    (eventResponse e).Ends IsProblem fun response => response.status = .ok := by
  cases e with
  | none => exact isProblem_problem ..
  | some e => exact rfl

/-- Where every part of the path is a text, what fails is told by a problem. -/
theorem handle_ends (he : ∀ part ∈ e.plainParts, EncodesText part) :
    (handle c now r e).Ends IsProblem fun response => response.status = .ok := by
  have hbad : ∀ detail, IsProblem (badRequest detail) := fun detail => isProblem_problem ..
  cases e with
  | health => exact rfl
  | authenticate | refresh =>
    refine (Task.ends_ofExcept _ hbad).bind fun q _ => ?_
    exact (Task.ends_mapError _ isProblem_ofCredentialError).bind fun pair _ => rfl
  | events group =>
    refine (Task.ends_ofExcept _ hbad).bind fun group _ => ?_
    refine (Task.ends_ofExcept _ hbad).bind fun query _ => ?_
    exact (Task.ends_mapError _ isProblem_ofEventsError).bind fun page _ => rfl
  | nextEvent group =>
    refine (ends_plainPathText (he group List.mem_cons_self)).bind fun group _ => ?_
    exact (Task.ends_mapError _ isProblem_ofEventsError).bind fun e _ => eventResponse_ends e
  | event group id =>
    refine (ends_plainPathText (he group List.mem_cons_self)).bind fun group _ => ?_
    refine (ends_plainPathText (he id (List.mem_cons_of_mem _ List.mem_cons_self))).bind
      fun id _ => ?_
    exact (Task.ends_mapError _ isProblem_ofEventsError).bind fun e _ => eventResponse_ends e

/-- A part of the path that is no text is told in plain text, whatever the services would say. -/
theorem conclude_handle_of_not_encodesText (c : Config.Api) (now : Instant) (r : Request)
    {part : List Char} (hmem : part ∈ e.plainParts) (h : ¬ EncodesText part) :
    ∃ s, conclude (handle c now r e) = .done (.text .badRequest s) := by
  cases e with
  | nextEvent group =>
    obtain rfl := List.mem_singleton.mp hmem
    obtain ⟨s, hs⟩ := plainPathText_of_not_encodesText "group_id" h
    rw [handle, hs]
    exact ⟨s, rfl⟩
  | event group id =>
    by_cases hgroup : EncodesText group
    · obtain ⟨text, htext⟩ := Option.isSome_iff_exists.mp hgroup
      obtain rfl : part = id := by
        rcases List.mem_cons.mp hmem with rfl | hmem
        · exact absurd hgroup h
        · exact List.mem_singleton.mp hmem
      obtain ⟨s, hs⟩ := plainPathText_of_not_encodesText "event_id" h
      rw [handle, plainPathText, pathText, htext, hs]
      exact ⟨s, rfl⟩
    · obtain ⟨s, hs⟩ := plainPathText_of_not_encodesText "group_id" hgroup
      rw [handle, hs]
      exact ⟨s, rfl⟩
  | health | authenticate | refresh | events => cases hmem

/-- Where every part of the path is a text, an answer that tells an error is a problem. -/
theorem conclude_handle_meets (he : ∀ part ∈ e.plainParts, EncodesText part) :
    (conclude (handle c now r e)).Meets (.only fun _ => True) () fun response _ =>
      400 ≤ response.status.code → IsProblem response := by
  refine Program.meets_bind.mpr (Program.Meets.mono (handle_ends he) fun x _ hx => ?_)
  cases x with
  | ok response =>
    intro herror
    rw [show response.status = .ok from hx] at herror
    exact absurd herror (by decide)
  | error response => exact fun _ => hx

end Endpoints

/-- The requests that get an answer without the details of a problem: nothing refuses them at the
gate, but the path does not have their method, or a part of it is no text. -/
def Undetailed (c : Config.Api) (now : Instant) (r : Request) : Prop :=
  ∃ e, Endpoint.ofSegments? r.segments = some e ∧ (e.isProtected → authorized c now r) ∧
    (e.accepts r.method = false ∨ ∃ part ∈ e.plainParts, ¬ EncodesText part)

theorem handle_method (method : String) :
    handle c now { r with method } e = handle c now r e := by
  cases e <;> rfl

/-- To a request for the head of an answer the answer is given without its body. -/
theorem respond_head (hm : r.method = "HEAD") :
    respond c now r = (respond c now { r with method := "GET" }).bind fun response =>
      .done { response with body := .empty } := by
  have hendpoint : ∀ e : Endpoint,
      e.respond c now r = e.respond c now { r with method := "GET" } := by
    intro e
    have haccepts : e.accepts r.method = e.accepts "GET" := by
      rw [hm]
      simp only [Endpoint.accepts]
      cases e.isPost <;> decide
    rw [Endpoint.respond, Endpoint.respond, handle_method, haccepts]
    rfl
  have hhead : ∀ response, forMethod r.method response = { response with body := .empty } :=
    fun _ => if_pos hm
  rw [respond, respond, Program.bind_assoc]
  simp only [hendpoint, hhead]
  rfl

theorem undetailed_iff (he : Endpoint.ofSegments? r.segments = some e) :
    Undetailed c now r ↔ (e.isProtected → authorized c now r) ∧
      (e.accepts r.method = false ∨ ∃ part ∈ e.plainParts, ¬ EncodesText part) := by
  constructor
  · rintro ⟨e', he', h⟩
    cases he.symm.trans he'
    exact h
  · exact fun h => ⟨e, he, h⟩

/-- An endpoint tells its errors by problems, unless the request is one without details. -/
theorem Endpoint.respond_meets (he : Endpoint.ofSegments? r.segments = some e) :
    (e.respond c now r).Meets (.only fun _ => True) () fun response _ =>
      400 ≤ response.status.code → (IsProblem response ↔ ¬ Undetailed c now r) := by
  rw [undetailed_iff he, Endpoint.respond]
  dsimp only
  split
  · next hgate =>
    have hclosed : ¬ (e.isProtected → authorized c now r) := by simpa using hgate
    exact fun _ => iff_of_true ((isProblem_problem .unauthorized none).with_allow _)
      fun h => hclosed h.1
  · next hgate =>
    have hopen : e.isProtected → authorized c now r := by simpa using hgate
    split
    · next hmethod =>
      by_cases hparts : ∃ part ∈ e.plainParts, ¬ EncodesText part
      · obtain ⟨part, hmem, hpart⟩ := hparts
        obtain ⟨s, hs⟩ := conclude_handle_of_not_encodesText c now r hmem hpart
        rw [hs]
        exact fun _ => iff_of_false (not_isProblem_text _ _)
          fun h => h ⟨hopen, .inr ⟨part, hmem, hpart⟩⟩
      · have htexts : ∀ part ∈ e.plainParts, EncodesText part := fun part hmem =>
          Classical.not_not.mp fun hpart => hparts ⟨part, hmem, hpart⟩
        refine (conclude_handle_meets htexts).mono fun response _ hproblem herror => ?_
        refine iff_of_true (hproblem herror) ?_
        rintro ⟨-, hrefused | hpart⟩
        · rw [hmethod] at hrefused
          cases hrefused
        · exact hparts hpart
    · next hmethod =>
      refine fun _ => iff_of_false (fun h => ?_) fun h => h ⟨hopen, .inl (by simpa using hmethod)⟩
      cases h.contentType

theorem respond_meets (hm : r.method ≠ "HEAD") :
    (respond c now r).Meets (.only fun _ => True) () fun response _ =>
      400 ≤ response.status.code → (IsProblem response ↔ ¬ Undetailed c now r) := by
  have hmethod : ∀ response, forMethod r.method response = response := fun _ => if_neg hm
  simp only [respond, hmethod]
  change Program.Meets _ (Program.bind _ Program.done) _ _
  rw [Program.bind_done]
  cases he : Endpoint.ofSegments? r.segments with
  | none =>
    refine fun _ => iff_of_true (isProblem_problem .notFound none) ?_
    rintro ⟨e, he', -⟩
    rw [he] at he'
    cases he'
  | some e => exact e.respond_meets he

/-- An answer with the status of an error has the details of the problem, unless the request has a
method that its path does not have or names what is no text where a single event is asked for. -/
theorem error_is_problem_iff {σ : Type}
    {handle : (q : Service.Request) → σ → Service.Reply q × σ} {s s' : σ} {response : Response}
    (hrun : (respond c now r).run handle s = (.done response, s'))
    (herror : 400 ≤ response.status.code) :
    (r.method ≠ "HEAD" → (IsProblem response ↔ ¬ Undetailed c now r)) ∧
    (r.method = "HEAD" → ∃ shown : Response,
      (respond c now { r with method := "GET" }).run handle s = (.done shown, s') ∧
        response = { shown with body := .empty }) := by
  constructor
  · intro hm
    exact (respond_meets hm).of_run_only hrun herror
  · intro hm
    rw [respond_head hm] at hrun
    replace hrun := (Program.run_bind (S := Service.signature) handle _ _ s).symm.trans hrun
    split at hrun
    · next shown s'' hshown =>
      obtain ⟨hresponse, rfl⟩ := Prod.mk.inj hrun
      exact ⟨shown, hshown, (Outcome.done.inj hresponse).symm⟩
    · cases hrun
    · cases hrun

section Sample

/-- Services without an answer to anything. -/
def faulty : (q : Service.Request) → Unit → Service.Reply q × Unit
  | .store (.query ..), s | .store (.getItem ..), s | .store (.batchGet ..), s
  | .store (.batchWrite ..), s => (.error (.read "throttled"), s)
  | .graphQl .., s => (none, s)
  | .wait _, s => ((), s)

theorem error_is_problem_iff_faulty :
    ∃ response : Response, (respond openConfig .epoch (openRequest "/v1/groups/a/events/next")).run
        faulty () = (.done response, ()) ∧ response.status = .internalError ∧
      IsProblem response := by
  have he : Endpoint.ofSegments? (openRequest "/v1/groups/a/events/next").segments =
      some (.nextEvent ['a']) := by decide +kernel
  have hrun : (respond openConfig .epoch (openRequest "/v1/groups/a/events/next")).run faulty () =
      (.done (.problem .internalError), ()) := by
    rw [respond_of_authorized he (authorized_openRequest _) rfl rfl]
    rfl
  refine ⟨_, hrun, rfl, ((error_is_problem_iff hrun (by decide)).1 (by decide)).mpr ?_⟩
  rw [undetailed_iff he]
  rintro ⟨-, hmethod | ⟨part, hmem, hpart⟩⟩
  · cases hmethod
  · obtain rfl := List.mem_singleton.mp hmem
    exact hpart rfl

/-- No details are told to a request with a method that its path does not have, and none to a
request for an event of a group whose name is no text. -/
theorem details_left_out :
    (∃ response : Response, response.status.code = 405 ∧ response.contentType = none ∧
      (∀ {σ : Type} (handle : (q : Service.Request) → σ → Service.Reply q × σ) (s : σ),
        (respond openConfig .epoch ⟨"POST", "/health", [], []⟩).run handle s =
          (.done response, s)) ∧ ¬ IsProblem response) ∧
    ∃ response : Response, response.status.code = 400 ∧
      response.contentType = some "text/plain; charset=utf-8" ∧
      (∀ {σ : Type} (handle : (q : Service.Request) → σ → Service.Reply q × σ) (s : σ),
        (respond openConfig .epoch (openRequest "/v1/groups/%FF/events/next")).run handle s =
          (.done response, s)) ∧ ¬ IsProblem response := by
  constructor
  · refine ⟨{ status := .methodNotAllowed, allow := some "GET,HEAD" }, rfl, rfl, ?_, ?_⟩
    · intro σ handle s
      have he : Endpoint.ofSegments? (⟨"POST", "/health", [], []⟩ : Request).segments =
          some .health := by decide +kernel
      rw [respond, he]
      rfl
    · rintro ⟨⟨⟩, -⟩
  · have he : Endpoint.ofSegments? (openRequest "/v1/groups/%FF/events/next").segments =
        some (.nextEvent ['%', 'F', 'F']) := by decide +kernel
    refine ⟨_, rfl, rfl, fun handle s => ?_, not_isProblem_text .badRequest
      "Invalid URL: Invalid UTF-8 in \x60group_id\x60"⟩
    rw [respond_of_authorized he (authorized_openRequest _) rfl rfl]
    rfl

end Sample

end Api

end GroupCalendar
