import Melis.Embeddings.Model
import Melis.Middleware.Model
import Melis.Router.FirstSelection
import Melis.Router.Registration

/-!
# The models a client is allowed (`router.rs`, `middleware/auth.rs`)

The whole way of a request through the gateway: authentication, the rate limiter,
the dispatch on path and method, and the handler. `auth_middleware` attaches the
`allowed_models` of the key to the request; no handler reads them.

* `Server.sendsModel_iff`: the model that is sent upstream for a request.
* `allowedModels_iff`: when a client is held to its models.
* `disallowed_model_sent`: a client that is not.
-/

namespace Melis.Router

open Client Embeddings Middleware RateLimiter

/-! ## The gateway -/

/-- What `build_router` and the handlers work with. `started` are the routes at
    start-up, whose paths are registered; those of `gateway` are now active. -/
structure Server where
  gateway : Gateway
  started : RouteResolver
  auth : AuthConfig
  rateLimit : RateLimitConfig
  O : OllamaJson

/-- A request as axum hands it over. `payload` and `embeddings` are what the `Json`
    extractors of the two handlers make of the body, unless they reject it. -/
structure ClientRequest where
  path : String
  method : String
  authorization : Option String
  accept : Option String
  payload : Option Value
  embeddings : Option EmbeddingsRequest

/-- The request that `chat_completions_handler` is called with. -/
def ClientRequest.chat (req : ClientRequest) (payload : Value) : ChatRequest where
  path := req.path
  accept := req.accept
  payload := payload

/-- What the gateway meets while it handles a request: the answers of its rate limiter,
    which is a trait object, the surroundings of the attempts, and Ollama's replies. -/
structure World where
  tryAcquire : String → RateLimitConfig → Except ℕ ℕ
  env : ℕ → Surroundings
  shared : Shared
  replies : ℕ → Reply

/-- How a request ends. -/
inductive Outcome where
  | refused (e : GatewayError)
  | unrouted
  | rejected
  | probed (handler : Handler)
  | chat (streaming : Bool) (run : LoopState × Exit)
  | embeddings (result : Except GatewayError EmbeddingsResponse) (calls : List OllamaCall)

/-- The router without its layers (lines 72–92). -/
def Server.handle (S : Server) (w : World) (req : ClientRequest) : Outcome :=
  match dispatch (buildRouter S.started) req.path req.method with
  | none => .unrouted
  | some .chatCompletions =>
    match req.payload with
    | none => .rejected
    | some payload =>
      .chat (req.chat payload).streaming
        (chatCompletions S.gateway w.env (req.chat payload) w.shared)
  | some .embeddings =>
    match req.embeddings with
    | none => .rejected
    | some e =>
      let (result, calls) := embeddingsHandler S.O S.gateway.config.providers w.replies e
      .embeddings result calls
  | some handler => .probed handler

/-- The router with its layers (lines 94–111), which are there if authentication is
    on. -/
def Server.serve (S : Server) (w : World) (req : ClientRequest) : Outcome :=
  if S.auth.enabled then
    match authMiddleware S.auth req.authorization with
    | .error e => .refused e
    | .ok identity =>
      let config := effectiveRateLimit S.rateLimit identity
      match rateLimitMiddleware (w.tryAcquire identity.clientId config) with
      | .error e => .refused e
      | .ok _ => S.handle w req
  else S.handle w req

/-- A request with `model` was made upstream. -/
def Outcome.SendsModel (model : String) : Outcome → Prop
  | chat streaming run =>
    ∃ a ∈ run.1.attempts, ∃ c, a.contact = some c ∧ Router.SendsModel streaming c model
  | embeddings _ calls => ∃ call ∈ calls, call.body.get "model" = some (.string model)
  | _ => False

/-! ## The model that is sent -/

/-- `select_provider` selects from the list. -/
def Selectable (providers : List WeightedProvider) : Prop :=
  providers.length = 1 ∨ ∃ p ∈ providers, 0 < p.weight

instance (providers : List WeightedProvider) : Decidable (Selectable providers) :=
  inferInstanceAs (Decidable (_ ∨ _))

/-- The model that the providers of a request are asked for, if the request reaches a
    handler, is accepted there and a provider can be selected. -/
def Server.upstreamModel (S : Server) (req : ClientRequest) : Option String :=
  match dispatch (buildRouter S.started) req.path req.method with
  | some .chatCompletions =>
    req.payload.bind fun payload =>
      let resolved := S.gateway.resolve (req.chat payload)
      if validateChatPayload payload = .ok () ∧ Selectable resolved.providers then
        some resolved.model
      else none
  | some .embeddings =>
    req.embeddings.bind fun e =>
      if validateEmbeddingsRequest e = .ok () ∧
          (ollamaProvider S.gateway.config.providers).isSome then some (e.model.getD "")
      else none
  | _ => none

/-- Without a selectable provider nothing is attempted. -/
theorem attempts_of_not_selectable {G : Gateway} {req : ChatRequest}
    (h : ¬ Selectable (G.resolve req).providers) (env : ℕ → Surroundings) (shared : Shared) :
    (chatCompletions G env req shared).1.attempts = [] := by
  have hnone : ∀ p, (selection (G.job req) (env 0) (.start shared)).1 ≠ .ok p := by
    intro p hp
    rw [selection, candidates_start] at hp
    exact h ((Balancer.selectProvider_ok_iff _ _).mp ⟨p, hp⟩)
  unfold chatCompletions
  split
  · rfl
  unfold failover
  cases maxAttempts (G.job req) with
  | zero => rfl
  | succ n =>
    have hturn := attempt_turn (G.job req) (env 0) (.start shared)
    rw [failoverFrom]
    cases hflow : attempt (G.job req) (env 0) (.start shared) with
    | next s =>
      rw [hflow] at hturn
      cases hturn with
      | skipped p _ hselected _ _ => exact absurd hselected (hnone p)
      | retried p _ _ _ _ hselected _ _ _ _ => exact absurd hselected (hnone p)
    | done s exit =>
      rw [hflow] at hturn
      cases hturn with
      | exhausted _ => rfl
      | unselected _ _ _ _ _ => rfl
      | unsent p _ _ hselected _ _ => exact absurd hselected (hnone p)
      | answered p _ _ _ _ hselected _ _ _ => exact absurd hselected (hnone p)

/-- The model that some run of the chat handler sends. -/
theorem chat_sendsModel_iff {G : Gateway} {req : ChatRequest} {model : String} :
    (∃ env shared, (Outcome.chat req.streaming
        (chatCompletions G env req shared)).SendsModel model) ↔
      (validateChatPayload req.payload = .ok () ∧ Selectable (G.resolve req).providers) ∧
        (G.resolve req).model = model := by
  constructor
  · rintro ⟨env, shared, a, ha, c, hc, hsends⟩
    refine ⟨⟨accepted_of_mem G req ha, ?_⟩, ((contact_sendsModel_iff G req ha hc model).mp
      hsends).symm⟩
    by_contra hselectable
    rw [attempts_of_not_selectable hselectable] at ha
    cases ha
  · rintro ⟨⟨haccept, hselectable⟩, rfl⟩
    obtain ⟨p, hp⟩ := (Balancer.selectProvider_ok_iff 0 (G.resolve req).providers).mpr hselectable
    let env : ℕ → Surroundings := fun _ => alone 0 (.unanswered true "")
    have hselected : (selection (G.job req) (env 0) (.start ⟨0, .new⟩)).1 = .ok p := by
      rw [selection, candidates_start]
      exact hp
    obtain ⟨a, ha, hcontact⟩ := first_contact haccept hselected
      (CircuitBreaker.isAvailable_new _ _ _) (by simp [env, alone])
    obtain ⟨c, hc⟩ := Option.ne_none_iff_exists'.mp hcontact
    exact ⟨_, _, a, ha, c, hc, (contact_sendsModel_iff G req ha hc _).mpr rfl⟩

/-- The model that the embeddings handler sends. -/
theorem embeddings_sendsModel_iff {O : OllamaJson} {providers : List ProviderConfig}
    {replies : ℕ → Reply} {req : EmbeddingsRequest} {model : String} :
    (∃ call ∈ (embeddingsHandler O providers replies req).2,
        call.body.get "model" = some (.string model)) ↔
      (validateEmbeddingsRequest req = .ok () ∧ (ollamaProvider providers).isSome) ∧
        req.model.getD "" = model := by
  obtain ⟨hall, hcalls⟩ := @embeddingsHandler_calls O replies providers req
  rw [Option.isSome_iff_exists, ← hcalls]
  constructor
  · rintro ⟨call, hcall, hmodel⟩
    rw [hall call hcall, Option.some.injEq, Value.string.injEq] at hmodel
    exact ⟨List.ne_nil_of_mem hcall, hmodel⟩
  · rintro ⟨hne, rfl⟩
    obtain ⟨call, hcall⟩ := List.exists_mem_of_ne_nil _ hne
    exact ⟨call, hcall, hall call hcall⟩

variable {S : Server} {req : ClientRequest} {identity : ClientIdentity} {model : String}

/-- Without its layers, the router sends the upstream model in some world, and no other
    model in any. -/
theorem Server.handle_sendsModel_iff :
    (∃ w, (S.handle w req).SendsModel model) ↔ S.upstreamModel req = some model := by
  unfold Server.handle Server.upstreamModel
  cases dispatch (buildRouter S.started) req.path req.method with
  | none => simp [Outcome.SendsModel]
  | some handler =>
    cases handler with
    | metrics => simp [Outcome.SendsModel]
    | healthz => simp [Outcome.SendsModel]
    | readyz => simp [Outcome.SendsModel]
    | embeddings =>
      cases req.embeddings with
      | none => simp [Outcome.SendsModel]
      | some e =>
        simp only [Option.bind_some, Option.ite_none_right_eq_some, Option.some.injEq]
        constructor
        · rintro ⟨w, hw⟩
          exact embeddings_sendsModel_iff.mp hw
        · intro h
          exact ⟨⟨fun _ _ => .ok 0, fun _ => alone 0 (.unanswered true ""), freshShared,
            fun _ => .unanswered true ""⟩, embeddings_sendsModel_iff.mpr h⟩
    | chatCompletions =>
      cases req.payload with
      | none => simp [Outcome.SendsModel]
      | some payload =>
        simp only [Option.bind_some, Option.ite_none_right_eq_some, Option.some.injEq]
        refine Iff.trans ⟨?_, ?_⟩ (@chat_sendsModel_iff S.gateway (req.chat payload) model)
        · rintro ⟨w, hw⟩
          exact ⟨w.env, w.shared, hw⟩
        · rintro ⟨env, shared, h⟩
          exact ⟨⟨fun _ _ => .ok 0, env, shared, fun _ => .unanswered true ""⟩, h⟩

/-- The layers send nothing. They let a request of an authenticated client through
    when the rate limiter does. -/
theorem Server.serve_sendsModel_iff (henabled : S.auth.enabled = true)
    (hauth : authMiddleware S.auth req.authorization = .ok identity) (w : World) :
    (S.serve w req).SendsModel model ↔
      (∃ remaining, rateLimitMiddleware (w.tryAcquire identity.clientId
        (effectiveRateLimit S.rateLimit identity)) = .ok remaining) ∧
      (S.handle w req).SendsModel model := by
  unfold Server.serve
  rw [if_pos henabled, hauth]
  dsimp only
  cases rateLimitMiddleware (w.tryAcquire identity.clientId
      (effectiveRateLimit S.rateLimit identity)) with
  | error e => simp [Outcome.SendsModel]
  | ok remaining => simp

/-- The model that is sent upstream for a request of an authenticated client. -/
theorem Server.sendsModel_iff (henabled : S.auth.enabled = true)
    (hauth : authMiddleware S.auth req.authorization = .ok identity) :
    (∃ w, (S.serve w req).SendsModel model) ↔ S.upstreamModel req = some model := by
  rw [← Server.handle_sendsModel_iff]
  constructor
  · rintro ⟨w, hw⟩
    exact ⟨w, ((Server.serve_sendsModel_iff henabled hauth w).mp hw).2⟩
  · rintro ⟨w, hw⟩
    refine ⟨{ w with tryAcquire := fun _ _ => .ok 0 }, ?_⟩
    exact (Server.serve_sendsModel_iff henabled hauth _).mpr ⟨⟨some 0, rfl⟩, hw⟩

/-- Every model of an upstream request made for the client is on its list, unless that
    is empty. -/
def Outcome.WithinAllowed (identity : ClientIdentity) (outcome : Outcome) : Prop :=
  ∀ model, outcome.SendsModel model →
    identity.allowedModels = [] ∨ model ∈ identity.allowedModels

/-- **Allowed models.** An authenticated client is held to its models exactly if its list
    is empty, or the model that its request asks providers for is listed. -/
theorem allowedModels_iff (henabled : S.auth.enabled = true)
    (hauth : authMiddleware S.auth req.authorization = .ok identity) :
    (∀ w, (S.serve w req).WithinAllowed identity) ↔
      identity.allowedModels = [] ∨
        ∀ model, S.upstreamModel req = some model → model ∈ identity.allowedModels := by
  constructor
  · intro h
    refine or_iff_not_imp_left.mpr fun hne model hmodel => ?_
    obtain ⟨w, hw⟩ := (Server.sendsModel_iff henabled hauth).mpr hmodel
    exact (h w model hw).resolve_left hne
  · rintro (hnil | hlisted) w model hw
    · exact .inl hnil
    · exact .inr (hlisted model ((Server.sendsModel_iff henabled hauth).mp ⟨w, hw⟩))

/-! ## Example -/

/-- A gateway with one provider, and a client whose key allows `allowedModels`. -/
def keyed (allowedModels : List String) : Server where
  gateway := oneRoute [⟨"openai", 1, "gpt-4o"⟩]
  started := (oneRoute [⟨"openai", 1, "gpt-4o"⟩]).resolver
  auth := { enabled := true, apiKeys := [⟨"sk-1", "alice", allowedModels, none⟩] }
  rateLimit := ⟨100, .finite 10⟩
  O := ⟨fun _ => .ok [], fun _ => .ok []⟩

/-- A question to `model` from the client of `keyed`. -/
def keyedQuestion (model : String) : ClientRequest where
  path := "/v1/chat/completions"
  method := "POST"
  authorization := some "Bearer sk-1"
  accept := none
  payload := some (questionTo model false).payload
  embeddings := none

theorem authMiddleware_keyed (allowedModels : List String) (model : String) :
    authMiddleware (keyed allowedModels).auth (keyedQuestion model).authorization =
      .ok ⟨"alice", none, allowedModels⟩ := by rfl

/-- A client that asks for a listed model. -/
theorem allowedModels_iff_keyed :
    authMiddleware (keyed ["llama3"]).auth (keyedQuestion "llama3").authorization =
      .ok ⟨"alice", none, ["llama3"]⟩ ∧
    ∀ w, ((keyed ["llama3"]).serve w (keyedQuestion "llama3")).WithinAllowed
      ⟨"alice", none, ["llama3"]⟩ :=
  ⟨authMiddleware_keyed _ _,
    (allowedModels_iff rfl (authMiddleware_keyed _ _)).mpr (.inr (by decide))⟩

/-- A client that is allowed `llama3` only is served `gpt-4o`. -/
theorem disallowed_model_sent :
    authMiddleware (keyed ["llama3"]).auth (keyedQuestion "gpt-4o").authorization =
      .ok ⟨"alice", none, ["llama3"]⟩ ∧
    ¬ ∀ w, ((keyed ["llama3"]).serve w (keyedQuestion "gpt-4o")).WithinAllowed
      ⟨"alice", none, ["llama3"]⟩ := by
  refine ⟨authMiddleware_keyed _ _, fun h => ?_⟩
  obtain ⟨w, hw⟩ := (Server.sendsModel_iff rfl (authMiddleware_keyed ["llama3"] "gpt-4o")).mpr
    (by decide : (keyed ["llama3"]).upstreamModel (keyedQuestion "gpt-4o") = some "gpt-4o")
  simpa using h w "gpt-4o" hw

end Melis.Router
