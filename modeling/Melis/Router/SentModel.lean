import Melis.Router.Contacts

/-!
# The model a provider is sent

The handler fixes one effective model before it selects a provider, the route's
model or else the client's, and sends it to whichever provider it contacts. The
`model` of a provider's own entry is not read.

* `sendsModel_iff`: every contact is sent the effective model.
* `exists_contact`: every provider of positive weight is contacted in some run.
* `sent_models`: when the providers are sent the models of their entries.
* `model_of_entry_ignored`: a provider is sent another entry's model.
-/

namespace Melis.Router

open CircuitBreaker Client

/-! ## The payload as it is forwarded -/

/-- The payload is an object with messages and the model of the job. -/
def Job.Sendable (job : Job) : Prop :=
  ∃ obj messages, job.payload = .object obj ∧
    Entries.get obj "model" = some (.string job.model) ∧
    Entries.get obj "messages" = some (.array messages)

/-- An accepted payload is forwarded as an object with messages and the effective
    model. -/
theorem sendable_of_accepted (G : Gateway) {req : ChatRequest}
    (h : validateChatPayload req.payload = .ok ()) : (G.job req).Sendable := by
  unfold Job.Sendable Gateway.job
  generalize G.resolve req = resolved
  generalize req.payload = payload at h ⊢
  obtain ⟨obj, model, messages, rfl, -, hmessages, -, -⟩ := validateChatPayload_ok h
  have hget : Entries.get (Entries.insert "model" (.string resolved.model) obj) "messages" =
      some (.array messages) := by
    rw [Entries.get_insert_of_ne _ _ (by decide), hmessages]
  unfold forwardPayload overrideModel compactPayload
  rw [messagesOf_object hget]
  dsimp only
  split_ifs
  · refine ⟨_, _, rfl, ?_, Entries.get_insert_self _ _ _⟩
    rw [Entries.get_insert_of_ne _ _ (by decide), Entries.get_insert_self]
  · exact ⟨_, messages, rfl, Entries.get_insert_self _ _ _, hget⟩

/-- The contact is sent `model`: in the URL for Claude on Vertex AI, in the body
    for every other provider. -/
def SendsModel (streaming : Bool) (c : Contact) (model : String) : Prop :=
  if c.endpoint.providerType == "vertex_anthropic" then
    c.request.url = c.endpoint.baseUrl ++ "/" ++ model ++ ":" ++
      (if streaming then "streamRawPredict" else "rawPredict")
  else c.request.body.get "model" = some (.string model)

section Requests

variable {job : Job} {endpoint : Endpoint} {token : Option String}

/-- A payload with messages and a model is translated for every provider. -/
theorem exists_buildBody (h : job.Sendable) (endpoint : Endpoint) :
    ∃ body, buildBody job.J endpoint job.payload = some body ∧
      ((endpoint.providerType == "vertex_anthropic") = false →
        body.get "model" = some (.string job.model)) := by
  obtain ⟨obj, messages, hpayload, hmodel, hmessages⟩ := h
  rw [hpayload]
  unfold buildBody
  split_ifs with hanthropic hvertex
  · rw [Transpiler.Anthropic.toNative_ok job.J hmessages hmodel]
    exact ⟨_, rfl, fun _ => Transpiler.Anthropic.get_nativeEntries_model _ _ _ _⟩
  · obtain ⟨native, hnative, -⟩ :=
      Transpiler.VertexAnthropic.toNative_ok job.J hmessages hmodel
    rw [hnative]
    exact ⟨native, rfl, fun h => absurd hvertex (by simp [h])⟩
  · exact ⟨_, rfl, fun _ => hmodel⟩

/-- With a token at hand a request is built. -/
theorem exists_buildRequest (h : job.Sendable) (endpoint : Endpoint) (token : String) :
    ∃ request, buildRequest job endpoint (some token) = .ok request := by
  obtain ⟨body, hbody, -⟩ := exists_buildBody h endpoint
  obtain ⟨headers, hheaders⟩ : ∃ headers, buildHeaders endpoint (some token) = some headers := by
    unfold buildHeaders
    dsimp only
    split_ifs <;> exact ⟨_, rfl⟩
  exact ⟨_, by rw [buildRequest, hheaders, hbody]⟩

theorem buildRequest_eq_ok {request : UpstreamRequest}
    (h : buildRequest job endpoint token = .ok request) :
    request.url = buildUrl endpoint job.model job.streaming ∧
      buildBody job.J endpoint job.payload = some request.body := by
  unfold buildRequest at h
  split at h
  · cases h
  · split at h
    · cases h
    · next body hbody =>
      cases h
      exact ⟨rfl, hbody⟩

/-- Every request carries the effective model, and no other. -/
theorem sendsModel_iff (hsend : job.Sendable) {c : Contact}
    (h : buildRequest job c.endpoint token = .ok c.request) (model : String) :
    SendsModel job.streaming c model ↔ model = job.model := by
  obtain ⟨hurl, hbody⟩ := buildRequest_eq_ok h
  obtain ⟨body, hbody', hkeep⟩ := exists_buildBody hsend c.endpoint
  obtain rfl : body = c.request.body := Option.some.inj (hbody'.symm.trans hbody)
  unfold SendsModel
  by_cases hvertex : (c.endpoint.providerType == "vertex_anthropic") = true
  · have hanthropic : (c.endpoint.providerType == "anthropic") = false := by
      rw [beq_iff_eq.mp hvertex]
      decide
    rw [if_pos hvertex, hurl, buildUrl, hanthropic, if_neg Bool.false_ne_true, if_pos hvertex,
      String.append_left_inj, String.append_left_inj, String.append_right_inj]
    exact eq_comm
  · rw [if_neg hvertex, hkeep (Bool.eq_false_iff.mpr hvertex), Option.some.injEq,
      Value.string.injEq]
    exact eq_comm

/-- Every provider of positive weight is the first to be contacted in some run. -/
theorem exists_contact (h : job.Sendable) {e : WeightedProvider} (he : e ∈ job.providers)
    (hweight : 0 < e.weight) (reply : Reply) :
    ∃ counter, ∃ a ∈ (failover job (fun _ => alone 0 reply) ⟨counter, .new⟩).1.attempts,
      ∃ c, a.contact = some c ∧ a.selected = e := by
  obtain ⟨counter, hselected⟩ := exists_counter_selection he hweight
  obtain ⟨request, hbuild⟩ := exists_buildRequest h (job.endpoint e) "token"
  obtain ⟨recorded, hattempt⟩ :=
    attempt_contacts (hselected _ .new (alone_quiet 0 reply)) (isAvailable_new _ _ _) hbuild
  refine ⟨counter, contacting job (alone 0 reply) (.start ⟨counter, .new⟩) e request recorded,
    ?_, _, rfl, rfl⟩
  refine (attempt_start_isPrefix he (fun _ => alone 0 reply) _).subset ?_
  rw [hattempt]
  exact List.mem_append_right _ List.mem_cons_self

end Requests

/-! ## Contacts -/

section Contacts

variable (G : Gateway) (req : ChatRequest)

/-- A request with a contact has an accepted payload. -/
theorem accepted_of_mem {env : ℕ → Surroundings} {shared : Shared} {a : Attempt}
    (ha : a ∈ (chatCompletions G env req shared).1.attempts) :
    validateChatPayload req.payload = .ok () := by
  unfold chatCompletions at ha
  cases h : validateChatPayload req.payload with
  | ok _ => rfl
  | error e =>
    rw [h] at ha
    cases ha

theorem chatCompletions_of_accepted {env : ℕ → Surroundings} {shared : Shared}
    (h : validateChatPayload req.payload = .ok ()) :
    chatCompletions G env req shared = failover (G.job req) env shared := by
  rw [chatCompletions, h]

/-- Every contact is sent the effective model, and no other. -/
theorem contact_sendsModel_iff {env : ℕ → Surroundings} {shared : Shared} {a : Attempt}
    (ha : a ∈ (chatCompletions G env req shared).1.attempts) {c : Contact}
    (hc : a.contact = some c) (model : String) :
    SendsModel req.streaming c model ↔ model = (G.resolve req).model := by
  obtain ⟨-, -, ⟨token, hbuild⟩, -⟩ :=
    ((chatCompletions_ended G env req shared).sound a ha).contact c hc
  exact sendsModel_iff (sendable_of_accepted G (accepted_of_mem G req ha)) hbuild model

variable {G req}

/-- **Sent models.** On a route with a `providers` list, a contact is sent the
    model of the entry selected for it exactly if that is the effective model,
    the route's or else the client's. If every entry has weight and the payload
    is accepted, every contact of every run is sent the model of its entry
    exactly if all entries name the effective model. -/
theorem sent_models {route : RouteDefinition} {providers : List WeightedProvider}
    (hroute : G.resolver.resolveRoute G.U req.path "POST" = some route)
    (hproviders : route.providers = some providers) :
    let effective := route.model.getD (modelFromPayload req.payload)
    let sendsOwn (env : ℕ → Surroundings) (shared : Shared) : Prop :=
      ∀ a ∈ (chatCompletions G env req shared).1.attempts, ∀ c, a.contact = some c →
        SendsModel req.streaming c a.selected.model
    (∀ env shared, ∀ a ∈ (chatCompletions G env req shared).1.attempts, ∀ c,
      a.contact = some c →
        (SendsModel req.streaming c a.selected.model ↔ a.selected.model = effective)) ∧
    ((∀ e ∈ providers, 0 < e.weight) → validateChatPayload req.payload = .ok () →
      ((∀ env shared, sendsOwn env shared) ↔ ∀ e ∈ providers, e.model = effective)) := by
  intro effective sendsOwn
  have hresolved : (G.resolve req).model = effective ∧ (G.resolve req).providers = providers := by
    simp [Gateway.resolve, resolveRouteConfig, hroute, extractProviders, hproviders, effective]
  have hiff : ∀ env shared, ∀ a ∈ (chatCompletions G env req shared).1.attempts, ∀ c,
      a.contact = some c →
        (SendsModel req.streaming c a.selected.model ↔ a.selected.model = effective) := by
    intro env shared a ha c hc
    rw [← hresolved.1]
    exact contact_sendsModel_iff G req ha hc _
  refine ⟨hiff, fun hweight haccept => ⟨fun h e he => ?_, fun h env shared a ha c hc => ?_⟩⟩
  · have hmem : e ∈ (G.job req).providers := by
      change e ∈ (G.resolve req).providers
      rwa [hresolved.2]
    obtain ⟨counter, a, ha, c, hc, rfl⟩ := exists_contact (sendable_of_accepted G haccept) hmem
      (hweight e he) (.unanswered true "")
    rw [← chatCompletions_of_accepted G req haccept] at ha
    exact (hiff _ _ a ha c hc).mp (h _ _ a ha c hc)
  · have hselected := ((chatCompletions_ended G env req shared).sound a ha).selected
    exact (hiff env shared a ha c hc).mpr (h a.selected (hresolved.2 ▸ hselected))

end Contacts

/-! ## Example -/

/-- A route whose providers name different models. -/
def twoVendors : Gateway := oneRoute [⟨"openai", 1, "gpt-4o"⟩, ⟨"ollama", 1, "llama3"⟩]

/-- The model in the body, attempt by attempt. -/
def LoopState.sent (s : LoopState) : List (String × Option String) :=
  s.attempts.map fun a =>
    (a.selected.model, (a.contact.bind fun c => c.request.body.get "model").bind Value.asStr)

/-- When the first provider times out, the second is sent the first one's
    model. -/
theorem model_of_entry_ignored :
    let run := chatCompletions twoVendors (fun _ => alone 0 (.unanswered true ""))
      (questionTo "gpt-4o" false) freshShared
    run.1.sent = [("gpt-4o", some "gpt-4o"), ("llama3", some "gpt-4o")] ∧
      ¬ ∀ a ∈ run.1.attempts, ∀ c, a.contact = some c →
        SendsModel false c a.selected.model := by
  intro run
  have hsent : run.1.sent = [("gpt-4o", some "gpt-4o"), ("llama3", some "gpt-4o")] := by decide
  refine ⟨hsent, fun h => ?_⟩
  have hmem : ("llama3", some "gpt-4o") ∈ run.1.sent := by simp [hsent]
  obtain ⟨a, ha, hpair⟩ := List.mem_map.mp hmem
  obtain ⟨hmodel, hbody⟩ := Prod.mk.inj hpair
  cases hc : a.contact with
  | none => simp [hc] at hbody
  | some c =>
    have heffective := (contact_sendsModel_iff twoVendors _ ha hc _).mp (h a ha c hc)
    rw [hmodel] at heffective
    exact absurd heffective (by decide)

/-- The route of `twoVendors` sends the client's model to every provider. -/
theorem sent_models_twoVendors :
    ∃ route, twoVendors.resolver.resolveRoute twoVendors.U "/v1/chat/completions" "POST" =
        some route ∧
      ∀ env shared, ∀ a ∈ (chatCompletions twoVendors env (questionTo "gpt-4o" false)
        shared).1.attempts, ∀ c, a.contact = some c →
          (SendsModel false c a.selected.model ↔ a.selected.model = "gpt-4o") :=
  ⟨_, rfl, (@sent_models twoVendors (questionTo "gpt-4o" false) _ _ rfl rfl).1⟩

end Melis.Router
