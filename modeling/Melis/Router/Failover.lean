import Melis.Balancer.Model
import Melis.CircuitBreaker.Model
import Melis.Client.Model
import Melis.Router.Payload
import Melis.Transpiler.Anthropic

/-!
# The failover loop (`router.rs`)

`chat_completions_handler` from provider selection on. The balancer's counter and
the breaker's map are shared with other requests; `Surroundings` says, for one
attempt, what the others do to them and what the clock, the token cache and the
upstream answer, so that a theorem for all surroundings holds under any
interleaving. The loop records its attempts in `attempts`, which the code does
not.

The metrics are in `Router.Samples`. An API key or token that is not a legal header
value makes the code panic; the model sends it.
-/

namespace Melis.Router

open CircuitBreaker Client

/-! ## One request to a provider -/

/-- What the provider's configuration says about reaching it. -/
structure Endpoint where
  baseUrl : String
  apiKey : String
  providerType : String
  timeout : Duration
deriving DecidableEq

/-- `pconfig` (lines 408–412). -/
def findProvider (config : GatewayConfig) (selectedName : String) : Option ProviderConfig :=
  config.providers.find? fun p => p.id == selectedName || p.providerType == selectedName

/-- `base_url`, `api_key`, `ptype` and `timeout` (lines 414–423). -/
def endpointOf (pconfig : Option ProviderConfig) : Endpoint where
  baseUrl := (pconfig.map (·.baseUrl)).getD "http://localhost:11434"
  apiKey := (pconfig.map (·.apiKey)).getD ""
  providerType := (pconfig.map (·.providerType)).getD "ollama"
  timeout := (pconfig.map (·.timeout)).getD (Duration.fromSecs 120)

/-- `url` (lines 427–451). -/
def buildUrl (endpoint : Endpoint) (effectiveModel : String) (streaming : Bool) : String :=
  if endpoint.providerType == "anthropic" then endpoint.baseUrl ++ "/messages"
  else if endpoint.providerType == "vertex_anthropic" then
    endpoint.baseUrl ++ "/" ++ effectiveModel ++ ":" ++
      (if streaming then "streamRawPredict" else "rawPredict")
  else if Text.contains endpoint.baseUrl "/openai" || Text.endsWith endpoint.baseUrl "/v1" then
    endpoint.baseUrl ++ "/chat/completions"
  else endpoint.baseUrl ++ "/v1/chat/completions"

/-- `provider_headers` (lines 454–505); `none` if there is no Google token.
    `token` is what `bearer_token` answers. The code panics where a key or a token is no
    header value; `Router.Progress` says what it takes. -/
def buildHeaders (endpoint : Endpoint) (token : Option String) :
    Option (List (String × String)) :=
  let headers := [("content-type", "application/json")]
  if endpoint.providerType == "vertex_anthropic" then
    token.map fun token => headers ++ [("authorization", "Bearer " ++ token)]
  else if !Text.isEmpty endpoint.apiKey && endpoint.apiKey != "ollama" then
    if endpoint.providerType == "anthropic" then
      some (headers ++ [("x-api-key", endpoint.apiKey), ("anthropic-version", "2023-06-01")])
    else some (headers ++ [("authorization", "Bearer " ++ endpoint.apiKey)])
  else some headers

/-- `body` (lines 509–533), before it is rendered; `none` if translation fails. -/
def buildBody (J : SerdeJson) (endpoint : Endpoint) (payload : Value) : Option Value :=
  if endpoint.providerType == "anthropic" then (Transpiler.Anthropic.toNative J payload).toOption
  else if endpoint.providerType == "vertex_anthropic" then
    (Transpiler.VertexAnthropic.toNative J payload).toOption
  else some payload

/-- What is sent upstream. -/
structure UpstreamRequest where
  url : String
  headers : List (String × String)
  body : Value
  timeout : Duration

/-! ## What becomes of the answer -/

/-- A successful response of the handler. `sse` is the stream that
    `transform_sse_stream` makes of the upstream's reply. -/
inductive Response where
  | json (value : Value)
  | sse (providerType : String) (reply : Reply)

/-- How an exchange ends: the handler answers, or the loop goes on. -/
inductive Verdict where
  | answer (result : Except GatewayError Response)
  | retry (error : GatewayError)

/-- `final_response` (lines 592–612). -/
def finalResponse (J : SerdeJson) (providerType : String) (jsonResponse : Value) : Value :=
  if providerType == "anthropic" then
    (Transpiler.Anthropic.fromNative J jsonResponse).toOption.getD jsonResponse
  else if providerType == "vertex_anthropic" then
    (Transpiler.VertexAnthropic.fromNative J jsonResponse).toOption.getD jsonResponse
  else jsonResponse

/-- The branches on the status of an error answer (lines 666–725): what is
    recorded, and how the exchange ends. -/
def httpErrorOutcome (effectiveModel : String) (status : ℕ) (errBody : String) :
    List CallResult × Verdict :=
  if status = 400 then
    ([], .answer (.error (.badRequest s!"Provider error: {errBody}")))
  else if status = 401 ∨ status = 403 then
    ([], .answer (.error (.unauthorized s!"Provider auth error: {errBody}")))
  else if status = 404 then
    ([], .answer (.error (.badRequest s!"Model '{effectiveModel}' not found at provider")))
  else if status = 429 then ([.rateLimited], .retry (.rateLimited 30))
  else if 500 ≤ status then
    ([.failure], .retry (.serviceUnavailable s!"Provider error {status}: {errBody}"))
  else ([], .retry (.providerError s!"HTTP {status}: {errBody}"))

/-- The branches on what `send` returns (lines 572–780). -/
def sendOutcome (J : SerdeJson) (effectiveModel providerType : String) :
    Except ClientError (List UInt8) → List CallResult × Verdict
  | .ok responseBytes =>
    ([.success], .answer <| match J.fromSlice responseBytes with
      | some jsonResponse => .ok (.json (finalResponse J providerType jsonResponse))
      | none => .error (.providerError "Invalid response from provider"))
  | .error (.httpError status errBody) => httpErrorOutcome effectiveModel status errBody
  | .error .timeout => ([.timeout], .retry (.serviceUnavailable "Provider timeout"))
  | .error e =>
    ([.failure], .retry (.serviceUnavailable s!"Provider unavailable: {e.display}"))

/-! ## The loop -/

/-- State shared with other requests: the balancer's counter and the breaker. -/
structure Shared where
  counter : ℕ
  states : States

/-- What surrounds one attempt: the others' effect on the shared state before
    the selection, before the breaker is asked and before the result is
    recorded, the two clock readings of the breaker, the token cache's answer,
    and the upstream's reply. -/
structure Surroundings where
  beforeSelect : Shared → Shared
  beforeAsk : Shared → Shared
  beforeRecord : Shared → Shared
  askNow : Instant
  recordNow : Instant
  token : Option String
  reply : Reply

/-- A provider contacted: how it is reached, what is sent, what comes back. -/
structure Contact where
  endpoint : Endpoint
  request : UpstreamRequest
  reply : Reply

/-- What one turn of the loop did: the provider selected, the breaker's map and
    the time when it was asked, the contact if there was one, and the results
    recorded for it. -/
structure Attempt where
  selected : WeightedProvider
  asked : States
  askedAt : Instant
  contact : Option Contact
  recorded : List CallResult

/-- The breaker's answer for the provider selected. -/
def Attempt.available (config : GatewayConfig) (a : Attempt) : Bool :=
  (isAvailable config.circuitBreaker a.asked a.selected.name a.askedAt).1

/-- What does not change in the loop. -/
structure Job where
  config : GatewayConfig
  J : SerdeJson
  model : String
  payload : Value
  providers : List WeightedProvider
  streaming : Bool

/-- The variables of the loop (lines 364–366), the shared state, and the record
    of the attempts. -/
structure LoopState where
  excluded : List String
  lastError : Option GatewayError
  shared : Shared
  attempts : List Attempt

/-- Before the first attempt. -/
def LoopState.start (shared : Shared) : LoopState where
  excluded := []
  lastError := none
  shared := shared
  attempts := []

/-- How the loop is left: with a result, or with every attempt used up. -/
inductive Exit where
  | answered (result : Except GatewayError Response)
  | exhausted

/-- What one turn of the loop leads to. -/
inductive Flow where
  | next (s : LoopState)
  | done (s : LoopState) (exit : Exit)

/-- `available` (lines 372–377). -/
def candidates (job : Job) (s : LoopState) : List WeightedProvider :=
  job.providers.filter fun p => !s.excluded.contains p.name

/-- Sending, and what is recorded (lines 541–780). A stream is not awaited, and
    counts as a success. -/
def exchange (job : Job) (endpoint : Endpoint) (reply : Reply) : List CallResult × Verdict :=
  if job.streaming then ([.success], .answer (.ok (.sse endpoint.providerType reply)))
  else sendOutcome job.J job.model endpoint.providerType (send reply)

/-- The request to `endpoint` (lines 427–533). It fails without a Google token
    where one is needed, and if the payload is not translated. -/
def buildRequest (job : Job) (endpoint : Endpoint) (token : Option String) :
    Except GatewayError UpstreamRequest :=
  match buildHeaders endpoint token with
  | none => .error (.serviceUnavailable "Vertex AI authentication unavailable")
  | some headers =>
    match buildBody job.J endpoint job.payload with
    | none => .error (.internal "Payload translation failed")
    | some body =>
      .ok { url := buildUrl endpoint job.model job.streaming, headers, body,
            timeout := endpoint.timeout }

/-- The end of a turn, once the breaker has let the provider of `a` through
    (lines 407–780). -/
def contactProvider (job : Job) (w : Surroundings) (s : LoopState) (a : Attempt)
    (shared : Shared) : Flow :=
  let selectedName := a.selected.name
  let endpoint := endpointOf (findProvider job.config selectedName)
  match buildRequest job endpoint w.token with
  | .error e => .done { s with shared, attempts := s.attempts ++ [a] } (.answered (.error e))
  | .ok request =>
    let (recorded, verdict) := exchange job endpoint w.reply
    let shared := w.beforeRecord shared
    let states := recorded.foldl (fun states result =>
      recordResult job.config.circuitBreaker states selectedName result w.recordNow) shared.states
    let a := { a with contact := some ⟨endpoint, request, w.reply⟩, recorded }
    match verdict with
    | .answer result =>
      .done { s with shared := { shared with states }, attempts := s.attempts ++ [a] }
        (.answered result)
    | .retry error =>
      .next { excluded := s.excluded ++ [selectedName], lastError := some error
              shared := { shared with states }, attempts := s.attempts ++ [a] }

/-- One turn of the loop (lines 370–781). -/
def attempt (job : Job) (w : Surroundings) (s : LoopState) : Flow :=
  if (candidates job s).isEmpty then .done s .exhausted
  else
    let shared := w.beforeSelect s.shared
    match Balancer.selectProvider shared.counter (candidates job s) with
    | (.error e, counter) =>
      .done { s with shared := { shared with counter } } (.answered (.error e))
    | (.ok selected, counter) =>
      let shared := w.beforeAsk { shared with counter }
      let a : Attempt :=
        { selected, asked := shared.states, askedAt := w.askNow, contact := none, recorded := [] }
      let (available, states) :=
        isAvailable job.config.circuitBreaker shared.states selected.name w.askNow
      let shared := { shared with states }
      if available then contactProvider job w s a shared
      else
        .next { s with excluded := s.excluded ++ [selected.name], shared
                       attempts := s.attempts ++ [a] }

/-- The loop from attempt `i` on, with `n` attempts left. -/
def failoverFrom (job : Job) (env : ℕ → Surroundings) : ℕ → ℕ → LoopState → LoopState × Exit
  | 0, _, s => (s, .exhausted)
  | n + 1, i, s =>
    match attempt job (env i) s with
    | .next s' => failoverFrom job env n (i + 1) s'
    | .done s' exit => (s', exit)

/-- `max_attempts` (line 365). -/
def maxAttempts (job : Job) : ℕ := min job.providers.length 3

/-- The loop (lines 364–787). -/
def failover (job : Job) (env : ℕ → Surroundings) (shared : Shared) : LoopState × Exit :=
  failoverFrom job env (maxAttempts job) 0 (.start shared)

/-- `response` (lines 369–787). -/
def response (run : LoopState × Exit) : Except GatewayError Response :=
  match run.2 with
  | .answered result => result
  | .exhausted =>
    .error (run.1.lastError.getD (.serviceUnavailable "All providers exhausted"))

/-! ## The handler -/

/-- What the handler's state holds: the tables, the configuration and the
    current routes. -/
structure Gateway where
  U : Unicode
  J : SerdeJson
  config : GatewayConfig
  resolver : RouteResolver

/-- A request to a chat route. -/
structure ChatRequest where
  path : String
  accept : Option String
  payload : Value

/-- `streaming` (line 260). -/
def ChatRequest.streaming (req : ChatRequest) : Bool := isStreamingRequest req.accept req.payload

/-- `resolved` (lines 263–276). -/
def Gateway.resolve (G : Gateway) (req : ChatRequest) : ResolvedRoute :=
  resolveRouteConfig G.U G.resolver req.path "POST" (modelFromPayload req.payload)
    G.config.compactor

/-- What the loop works on. -/
def Gateway.job (G : Gateway) (req : ChatRequest) : Job where
  config := G.config
  J := G.J
  model := (G.resolve req).model
  payload := forwardPayload G.U (G.resolve req) req.payload
  providers := (G.resolve req).providers
  streaming := req.streaming

/-- `chat_completions_handler` (lines 247–828), with the loop's record. -/
def chatCompletions (G : Gateway) (env : ℕ → Surroundings) (req : ChatRequest) (shared : Shared) :
    LoopState × Exit :=
  match validateChatPayload req.payload with
  | .error e => (.start shared, .answered (.error e))
  | .ok () => failover (G.job req) env shared

end Melis.Router
