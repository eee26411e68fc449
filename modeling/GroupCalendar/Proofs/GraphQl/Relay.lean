import GroupCalendar.GraphQl.Proxy
import GroupCalendar.Proofs.Json.RoundTrip

/-! # Requests by way of a proxy

A request that is sent to a function, and that a proxy in the function passes on, reaches the
handler behind the proxy as it was sent, and the answer comes back as the handler gave it. So it
makes no difference whether the handler is asked directly. A blank query does not reach it.
-/

namespace GroupCalendar.GraphQl

open Json (Plain)

variable {m : Type → Type} [Monad m] {r : Request} {payload : Json}

section Payloads

theorem Request.ofJson_toJson (r : Request) : ofJson r.toJson = .ok r := rfl

/-- The payload of a request nests its variables once more. -/
theorem Request.plain_toJson {d : Nat} (h : r.arguments.Plain d) : Plain (d + 1) r.toJson := by
  have hnames : "query" < "variables" := by decide
  refine .object (List.pairwise_pair.mpr hnames) fun f hf => ?_
  simp only [List.mem_cons, List.not_mem_nil, or_false] at hf
  rcases hf with rfl | rfl
  · exact .string r.query
  · exact h

theorem parse_payload (h : r.arguments.Plain 100) : Json.parse r.toJson.encode = .ok r.toJson :=
  Json.parse_encode (Request.plain_toJson h) (by decide)

/-- An answer is read back from its octets. -/
theorem answer_encode {x : Json} (h : x.Plain 100) :
    Invocation.answer ⟨none, x.encode⟩ = .ok x := by
  rw [Invocation.answer, Json.parse_encode h (by decide)]
  rfl

end Payloads

section Handlers

variable {execute : Request → ExceptT GraphQlError m Json}

theorem forwarded_of_ofJson (h : Request.ofJson payload = .ok r) :
    forwarded payload =
      if r.isBlank then .error (.invalidRequest "query is empty") else .ok r := by
  rw [forwarded, h]

theorem proxy_of_blank (h : Request.ofJson payload = .ok r) (hr : r.isBlank = true) :
    proxy execute payload = throw (.invalidRequest "query is empty") := by
  rw [proxy, forwarded_of_ofJson h, if_pos hr]

theorem proxy_of_not_blank (h : Request.ofJson payload = .ok r) (hr : r.isBlank = false) :
    proxy execute payload = ExceptT.adapt .query (execute r) := by
  rw [proxy, forwarded_of_ofJson h, if_neg (by simp [hr])]

/-- A handler with a list of the requests that it has received. -/
def recording (execute : Request → ExceptT GraphQlError m Json) (r : Request) :
    ExceptT GraphQlError (StateT (List Request) m) Json :=
  ExceptT.mk fun received => (·, received ++ [r]) <$> (execute r).run

theorem recording_of_blank (h : Request.ofJson payload = .ok r) (hr : r.isBlank = true)
    (received : List Request) :
    (proxy (recording execute) payload).run.run received =
      pure (.error (.invalidRequest "query is empty"), received) := by
  rw [proxy_of_blank h hr]
  rfl

/-- The handler receives a request that is not blank, once, and no other one. -/
theorem recording_of_not_blank [LawfulMonad m] (h : Request.ofJson payload = .ok r)
    (hr : r.isBlank = false) (received : List Request) :
    (proxy (recording execute) payload).run.run received =
      (fun a => (a.mapError .query, received ++ [r])) <$> (execute r).run := by
  rw [proxy_of_not_blank h hr]
  change (Except.mapError ProxyError.query <$> (recording execute r).run).run received = _
  rw [StateT.run_map]
  change _ <$> (·, received ++ [r]) <$> (execute r).run = _
  rw [Functor.map_map]

end Handlers

section Functions

/-- What is left behind by a function in which a proxy runs: the octets of the proxy's answer, or
what the function makes of an error. -/
def left (faulted : ProxyError → m (Except GraphQlError Invocation)) :
    Except ProxyError Json → m (Except GraphQlError Invocation)
  | .ok x => pure (.ok ⟨none, x.encode⟩)
  | .error e => faulted e

/-- A call of a function runs a proxy on the payload. -/
def Hosts (faulted : ProxyError → m (Except GraphQlError Invocation))
    (execute : Request → ExceptT GraphQlError m Json)
    (invoke : List UInt8 → ExceptT GraphQlError m Invocation) : Prop :=
  ∀ octets payload, Json.parse octets = .ok payload →
    (invoke octets).run = (proxy execute payload).run >>= left faulted

/-- Where the handler answers, it answers with a plain value. -/
def AnswersPlain (execute : Request → ExceptT GraphQlError m Json) (r : Request) : Prop :=
  ∃ answer : m (Except GraphQlError { x : Json // x.Plain 100 }),
    (execute r).run = Except.map Subtype.val <$> answer

/-- What the caller of a function gets of the answer to a request: the answer itself, or what the
function makes of an error. -/
def back (faulted : ProxyError → m (Except GraphQlError Invocation)) :
    Except GraphQlError Json → m (Except GraphQlError Json)
  | .ok x => pure (.ok x)
  | .error e => (·.bind Invocation.answer) <$> faulted (.query e)

variable [LawfulMonad m]

theorem run_viaFunction (invoke : List UInt8 → ExceptT GraphQlError m Invocation) (r : Request) :
    (viaFunction invoke r).run = (·.bind Invocation.answer) <$> (invoke r.toJson.encode).run := by
  rw [viaFunction, ExceptT.run_bind, map_eq_pure_bind]
  refine bind_congr fun a => ?_
  cases a <;> rfl

/-- The answer of a function comes back as the handler gave it. -/
theorem viaFunction_of_hosts {faulted : ProxyError → m (Except GraphQlError Invocation)}
    {execute : Request → ExceptT GraphQlError m Json}
    {invoke : List UInt8 → ExceptT GraphQlError m Invocation} (h : r.arguments.Plain 100)
    (hinvoke : Hosts faulted execute invoke) (hr : r.isBlank = false)
    (hanswer : AnswersPlain execute r) :
    (viaFunction invoke r).run = (execute r).run >>= back faulted := by
  obtain ⟨answer, hanswer⟩ := hanswer
  rw [run_viaFunction, hinvoke _ _ (parse_payload h),
    proxy_of_not_blank (Request.ofJson_toJson r) hr]
  change _ <$> (Except.mapError ProxyError.query <$> (execute r).run >>= left faulted) = _
  rw [hanswer, map_bind, bind_map_left, bind_map_left, bind_map_left]
  refine bind_congr fun a => ?_
  cases a with
  | error e => rfl
  | ok x =>
    change (·.bind Invocation.answer) <$> (pure (.ok ⟨none, x.1.encode⟩) :
      m (Except GraphQlError Invocation)) = _
    rw [map_pure]
    exact congrArg pure (answer_encode x.2)

/-- The payload of a request reaches the handler behind a proxy as that request, once, unless it is
blank. The answer by way of a function is that of the handler. Whatever the payload is, the handler
is not asked for the answer to a blank request. -/
theorem relayed_eq_direct (execute : Request → ExceptT GraphQlError m Json) (r : Request)
    (h : r.arguments.Plain 100) :
    (∃ payload, Json.parse r.toJson.encode = .ok payload ∧
      ∀ received, (proxy (recording execute) payload).run.run received =
        if r.isBlank then pure (.error (.invalidRequest "query is empty"), received)
        else (fun a => (a.mapError .query, received ++ [r])) <$> (execute r).run) ∧
    (∀ faulted invoke, Hosts faulted execute invoke → r.isBlank = false → AnswersPlain execute r →
      (viaFunction invoke r).run = (execute r).run >>= back faulted) ∧
    (∀ x, x.Plain 100 → Invocation.answer ⟨none, x.encode⟩ = .ok x) ∧
    ∀ payload r', Request.ofJson payload = .ok r' → r'.isBlank = true →
      ∀ received, (proxy (recording execute) payload).run.run received =
        pure (.error (.invalidRequest "query is empty"), received) := by
  refine ⟨⟨r.toJson, parse_payload h, fun received => ?_⟩,
    fun _ _ hinvoke hr hanswer => viaFunction_of_hosts h hinvoke hr hanswer,
    fun _ => answer_encode, fun _ _ => recording_of_blank⟩
  split
  · next hr => exact recording_of_blank (Request.ofJson_toJson r) hr received
  · next hr =>
    exact recording_of_not_blank (Request.ofJson_toJson r) (Bool.eq_false_iff.mpr hr) received

section Sample

/-- A handler that answers with the variables. -/
def echo (r : Request) : ExceptT GraphQlError Id Json :=
  pure r.arguments

def sampleFault (e : ProxyError) : Id (Except GraphQlError Invocation) :=
  .ok ⟨some "Unhandled", (Json.string e.message).encode⟩

/-- A function with a proxy of the handler. -/
def sampleFunction (octets : List UInt8) : ExceptT GraphQlError Id Invocation :=
  match Json.parse octets with
  | .ok payload => ExceptT.mk ((proxy echo payload).run >>= left sampleFault)
  | .error e => throw (.decode e.message)

def sampleRequest : Request :=
  ⟨"{ self }", .object [("a", .array [.integer (-9223372036854775808), .string "\"\n"])]⟩

theorem relayed_eq_direct_sample :
    (∃ payload, Json.parse sampleRequest.toJson.encode = .ok payload ∧
      (proxy (recording echo) payload).run.run [] =
        (.ok sampleRequest.arguments, [sampleRequest])) ∧
    (viaFunction sampleFunction sampleRequest).run = .ok sampleRequest.arguments ∧
    (proxy (recording echo) (.object [("query", .string " ")])).run.run [] =
      (.error (.invalidRequest "query is empty"), []) := by
  have hplain : sampleRequest.arguments.Plain 100 := by
    refine .object (List.pairwise_singleton _ _) (List.forall_mem_singleton.mpr (.array ?_))
    exact List.forall_mem_cons.mpr ⟨.integer rfl, List.forall_mem_singleton.mpr (.string _)⟩
  have hblank : sampleRequest.isBlank = false := by decide
  have hhosts : Hosts sampleFault echo sampleFunction := fun octets payload h => by
    rw [sampleFunction, h]
    rfl
  obtain ⟨⟨payload, hparse, hproxy⟩, hdirect, -, hempty⟩ :=
    relayed_eq_direct echo sampleRequest hplain
  refine ⟨⟨payload, hparse, ?_⟩, ?_, ?_⟩
  · rw [hproxy, hblank]
    rfl
  · rw [hdirect sampleFault sampleFunction hhosts hblank
      ⟨.ok ⟨sampleRequest.arguments, hplain⟩, rfl⟩]
    rfl
  · exact hempty _ ⟨" ", .null⟩ rfl (by decide) []

end Sample

end Functions

end GroupCalendar.GraphQl
