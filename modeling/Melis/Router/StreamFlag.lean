import Melis.Router.SentModel

/-!
# Asking for a stream

Whether the reply is a stream is decided from the `Accept` header or the payload's
`stream` field. The body that is sent has the payload's field only.

* `get_forwardPayload`: the fields that reach the provider untouched.
* `treatsAsStream_iff`: the reply is read as a stream for a streaming request.
* `streamAgrees_iff`: when the body asks for the stream that is read.
* `json_read_as_stream`: with the header alone, the provider is not asked.
-/

namespace Melis.Router

open Client

/-! ## The `stream` field -/

/-- Only the model and the messages change before the payload is translated. -/
theorem get_forwardPayload (U : Unicode) (resolved : ResolvedRoute) (payload : Value) {k : String}
    (hmodel : "model" ≠ k) (hmessages : "messages" ≠ k) :
    (forwardPayload U resolved payload).get k = payload.get k := by
  have hset : ∀ (v w : Value), (v.set "messages" w).get k = v.get k := by
    rintro (_ | _ | _ | _ | _ | obj) w
    case object => exact Entries.get_insert_of_ne _ _ hmessages
    all_goals rfl
  have hoverride : (overrideModel payload resolved.model).get k = payload.get k := by
    cases payload with
    | object obj => exact Entries.get_insert_of_ne _ _ hmodel
    | _ => rfl
  unfold forwardPayload compactPayload
  split
  · dsimp only
    split_ifs
    · rw [hset, hoverride]
    · exact hoverride
  · exact hoverride

/-- The body has the `stream` field of the payload. -/
theorem buildBody_stream {job : Job} (h : job.Sendable) {endpoint : Endpoint} {body : Value}
    (hvertex : endpoint.providerType ≠ "vertex_anthropic")
    (hbody : buildBody job.J endpoint job.payload = some body) :
    body.get "stream" = job.payload.get "stream" := by
  obtain ⟨obj, messages, hpayload, hmodel, hmessages⟩ := h
  rw [hpayload] at hbody ⊢
  unfold buildBody at hbody
  rw [Transpiler.Anthropic.toNative_ok job.J hmessages hmodel,
    if_neg (by simpa using hvertex : ¬ (endpoint.providerType == "vertex_anthropic") = true)]
    at hbody
  split_ifs at hbody
  · obtain rfl := Option.some.inj hbody
    exact Transpiler.Anthropic.get_nativeEntries_stream _ _ _ _
  · obtain rfl := Option.some.inj hbody
    rfl

/-! ## What the handler makes of the reply -/

/-- The body sent asks for a stream. -/
def AsksForStream (c : Contact) : Prop := c.request.body.get "stream" = some (.bool true)

/-- The reply is handed on as a stream. -/
def TreatsAsStream (job : Job) (c : Contact) : Prop :=
  (exchange job c.endpoint c.reply).2 = .answer (.ok (.sse c.endpoint.providerType c.reply))

theorem treatsAsStream_iff (job : Job) (c : Contact) :
    TreatsAsStream job c ↔ job.streaming = true := by
  cases hs : job.streaming with
  | true => simp [TreatsAsStream, exchange, hs]
  | false =>
    refine iff_of_false (fun h => ?_) Bool.false_ne_true
    have hexchange : exchange job c.endpoint c.reply = ((exchange job c.endpoint c.reply).1,
        .answer (.ok (.sse c.endpoint.providerType c.reply))) := Prod.ext rfl h
    obtain ⟨_, _, -, -, hjson⟩ := exchange_success hs hexchange
    cases hjson

/-- The `Accept` header asks for a stream (lines 216–220). -/
def acceptsEventStream (accept : Option String) : Bool :=
  (accept.map fun v => Text.contains v "text/event-stream").getD false

theorem asBool_eq_true_iff {v : Option Value} :
    (v.bind Value.asBool).getD false = true ↔ v = some (.bool true) := by
  match v with
  | none => simp
  | some (.bool b) => simp [Value.asBool]
  | some .null | some (.number _) | some (.string _) | some (.array _) | some (.object _) =>
    simp [Value.asBool]

theorem streaming_iff (req : ChatRequest) :
    req.streaming = true ↔
      acceptsEventStream req.accept = true ∨ req.payload.get "stream" = some (.bool true) := by
  rw [ChatRequest.streaming, isStreamingRequest, Bool.or_eq_true, asBool_eq_true_iff,
    acceptsEventStream]

/-- The reply is read as a stream, and `is_streaming_request` holds, exactly if the
    body asks for a stream. -/
structure StreamAgrees (G : Gateway) (req : ChatRequest) (c : Contact) : Prop where
  reply : TreatsAsStream (G.job req) c ↔ AsksForStream c
  flag : req.streaming = true ↔ AsksForStream c

section Contacts

variable {G : Gateway} {env : ℕ → Surroundings} {req : ChatRequest} {shared : Shared}

/-- What a provider other than Claude on Vertex AI is asked is what the client's
    payload asks. -/
theorem asksForStream_iff {a : Attempt} (ha : a ∈ (chatCompletions G env req shared).1.attempts)
    {c : Contact} (hc : a.contact = some c)
    (hvertex : c.endpoint.providerType ≠ "vertex_anthropic") :
    AsksForStream c ↔ req.payload.get "stream" = some (.bool true) := by
  obtain ⟨-, -, ⟨token, hbuild⟩, -⟩ :=
    ((chatCompletions_ended G env req shared).sound a ha).contact c hc
  obtain ⟨-, hbody⟩ := buildRequest_eq_ok hbuild
  have hstream := buildBody_stream (sendable_of_accepted G (accepted_of_mem G req ha)) hvertex hbody
  have hforward : (G.job req).payload.get "stream" = req.payload.get "stream" :=
    get_forwardPayload _ _ _ (by decide) (by decide)
  rw [AsksForStream, hstream, hforward]

/-- **Streams.** A contact other than with Claude on Vertex AI is asked for the
    stream its reply is read as exactly if the `Accept` header does not ask for
    one, or the payload does too. -/
theorem streamAgrees_iff {a : Attempt} (ha : a ∈ (chatCompletions G env req shared).1.attempts)
    {c : Contact} (hc : a.contact = some c)
    (hvertex : c.endpoint.providerType ≠ "vertex_anthropic") :
    StreamAgrees G req c ↔ (acceptsEventStream req.accept = true →
      req.payload.get "stream" = some (.bool true)) := by
  have hasks := asksForStream_iff ha hc hvertex
  have hflag : (req.streaming = true ↔ AsksForStream c) ↔
      (acceptsEventStream req.accept = true → req.payload.get "stream" = some (.bool true)) := by
    rw [hasks, streaming_iff, or_iff_right_iff_imp]
  have hreply : TreatsAsStream (G.job req) c ↔ req.streaming = true := treatsAsStream_iff _ c
  rw [← hflag]
  exact ⟨StreamAgrees.flag, fun h => ⟨hreply.trans h, h⟩⟩

end Contacts

/-! ## Example -/

/-- A question to the route of `oneRoute`, with the `Accept` header given. -/
def questionWith (accept : Option String) (fields : Entries) : ChatRequest where
  path := "/v1/chat/completions"
  accept := accept
  payload := .json ([("model", .string "gpt-4o"), ("messages", .array question)] ++ fields)

/-- A gateway with one provider. -/
def oneProvider : Gateway := oneRoute [⟨"ollama", 1, "llama3"⟩]

/-- The provider answers with an empty object. -/
def answersEmpty (_ : ℕ) : Surroundings :=
  alone 0 (.answered 200 (.complete [0x7b, 0x7d] "\x7b\x7d"))

/-- The providers contacted, by type, and what they are asked. -/
def LoopState.asked (s : LoopState) : List (String × Option Bool) :=
  s.attempts.filterMap fun a => a.contact.map fun c =>
    (c.endpoint.providerType, (c.request.body.get "stream").bind Value.asBool)

theorem LoopState.exists_of_mem_asked {s : LoopState} {providerType : String}
    {asked : Option Bool} (h : (providerType, asked) ∈ s.asked) :
    ∃ a ∈ s.attempts, ∃ c, a.contact = some c ∧ c.endpoint.providerType = providerType ∧
      (c.request.body.get "stream").bind Value.asBool = asked := by
  obtain ⟨a, ha, hmap⟩ := List.mem_filterMap.mp h
  obtain ⟨c, hc, hpair⟩ := Option.map_eq_some_iff.mp hmap
  exact ⟨a, ha, c, hc, congrArg Prod.fst hpair, congrArg Prod.snd hpair⟩

/-- With the header alone, a complete JSON answer is read as a stream: the body sent
    has no `stream` field. -/
theorem json_read_as_stream :
    let req := questionWith (some "text/event-stream") []
    let run := chatCompletions oneProvider answersEmpty req freshShared
    run.1.asked = [("ollama", none)] ∧
      ∃ a ∈ run.1.attempts, ∃ c, a.contact = some c ∧
        c.endpoint.providerType ≠ "vertex_anthropic" ∧ ¬ StreamAgrees oneProvider req c := by
  intro req run
  have hasked : run.1.asked = [("ollama", none)] := by decide
  obtain ⟨a, ha, c, hc, htype, hstream⟩ :=
    LoopState.exists_of_mem_asked (hasked ▸ List.mem_cons_self)
  refine ⟨hasked, a, ha, c, hc, by rw [htype]; decide, fun h => ?_⟩
  have hasks : AsksForStream c := h.flag.mp (by decide)
  rw [hasks] at hstream
  cases hstream

/-- With the payload's field, whatever the header, the provider is asked. -/
theorem streamAgrees_iff_field :
    let req := questionWith none [("stream", .bool true)]
    ∃ a ∈ (chatCompletions oneProvider answersEmpty req freshShared).1.attempts, ∃ c,
      a.contact = some c ∧ StreamAgrees oneProvider req c := by
  intro req
  have hasked : (chatCompletions oneProvider answersEmpty req freshShared).1.asked =
      [("ollama", some true)] := by decide
  obtain ⟨a, ha, c, hc, htype, -⟩ := LoopState.exists_of_mem_asked (hasked ▸ List.mem_cons_self)
  have hvertex : c.endpoint.providerType ≠ "vertex_anthropic" := by rw [htype]; decide
  exact ⟨a, ha, c, hc, (streamAgrees_iff ha hc hvertex).mpr fun _ => rfl⟩

end Melis.Router
