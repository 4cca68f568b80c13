import Melis.Observability.Model
import Melis.Router.Failover

/-!
# What the handler counts (`router.rs`)

The metric updates of `chat_completions_handler`, in the order in which each
piece of the handler makes them. The durations and ratios observed are left out.

* `exchangeSamples_of` and the like: which metrics each piece updates, with a
  value for each label.
-/

namespace Melis.Router

open CircuitBreaker Client Compactor Observability

/-! ## The pieces -/

/-- The updates of the context compaction (lines 294–361). -/
def compactionSamples (U : Unicode) (config : CompactorConfig) (payload : Value) : List Sample :=
  (match messagesOf payload with
    | some messagesArr =>
      let result := runCompactor U config (messagesArr.filterMap toCompactMessage)
      if result.wasCompressed then
        [once .compactionAppliedTotal [],
          incBy .contextOriginalTokens [] result.originalTokens,
          incBy .contextFinalTokens [] result.finalTokens,
          incBy .contextSavedTokensTotal [] (result.originalTokens - result.finalTokens),
          once .compressionRatio []]
      else
        [incBy .contextOriginalTokens [] result.originalTokens,
          incBy .contextFinalTokens [] result.finalTokens,
          once .compressionRatio [],
          once .compactionSkippedTotal ["below_threshold"]]
    | none => []) ++ [once .compactionDuration []]

/-- A provider is skipped (lines 389–402). -/
def circuitOpenSamples (selectedName : String) : List Sample :=
  [once .failoverTotal [selectedName, "circuit_open"],
    once .fallbackModeTotal [selectedName, "next", "circuit_open"]]

/-- There is no request to send: without a Google token an error is counted
    (lines 480–490), a failed translation is not. -/
def unsentSamples (endpoint : Endpoint) (token : Option String) : List Sample :=
  if (buildHeaders endpoint token).isNone then
    [once .providerErrorsTotal [endpoint.providerType, "adc_error"]]
  else []

/-- The tokens that the answer reports (lines 614–640). -/
def usageSamples (effectiveModel : String) (finalResponse : Value) : List Sample :=
  match finalResponse.get "usage" with
  | some usage =>
    let promptTokens := ((usage.get "prompt_tokens").bind Value.asU64).getD 0
    let completionTokens := ((usage.get "completion_tokens").bind Value.asU64).getD 0
    let modelName := ((finalResponse.get "model").bind Value.asStr).getD effectiveModel
    [incBy .llmTokensTotal ["input", modelName, "unknown"] promptTokens,
      incBy .llmTokensTotal ["output", modelName, "unknown"] completionTokens]
  | none => []

/-- The updates on what `send` returns (lines 572–780), before the result is
    recorded with the breaker and after it. -/
def sendSamples (J : SerdeJson) (effectiveModel selectedName providerType : String) :
    Except ClientError (List UInt8) → List Sample × List Sample
  | .ok responseBytes =>
    ([], match J.fromSlice responseBytes with
      | some jsonResponse => usageSamples effectiveModel (finalResponse J providerType jsonResponse)
      | none => [])
  | .error (.httpError status _) =>
    ([once .providerErrorsTotal [providerType, toString status]],
      if status = 429 then [once .failoverTotal [selectedName, "429"]]
      else if 500 ≤ status then [once .failoverTotal [selectedName, "5xx"]]
      else [])
  | .error .timeout =>
    ([], [once .providerErrorsTotal [providerType, "timeout"],
      once .failoverTotal [selectedName, "timeout"]])
  | .error _ =>
    ([], [once .providerErrorsTotal [providerType, "network_error"],
      once .failoverTotal [selectedName, "network"]])

/-- The updates of an exchange (lines 541–780), before the result is recorded
    and after it. -/
def exchangeSamples (job : Job) (selectedName : String) (endpoint : Endpoint) (reply : Reply) :
    List Sample × List Sample :=
  let latency := once .backendLatency [endpoint.providerType]
  if job.streaming then ([latency], [])
  else
    let (before, after) :=
      sendSamples job.J job.model selectedName endpoint.providerType (send reply)
    (latency :: before, after)

/-- The updates after the loop (lines 789–826). Only a response is counted; it
    has status 200. -/
def exitSamples (req : ChatRequest) (providerTypeUsed : String) (run : LoopState × Exit) :
    List Sample :=
  match response run with
  | .ok _ =>
    (match run.1.excluded with
      | first :: _ => [once .fallbackModeTotal [first, providerTypeUsed, "failover_success"]]
      | [] => []) ++
    [once .requestsTotal [req.path, "unknown", "200"],
      once .requestDuration [req.path, providerTypeUsed],
      once .internalOverhead [], once .gatewayOverhead []]
  | .error _ => []

/-! ## Metrics and labels -/

/-- What the compaction updates. -/
def compactionMetrics : List Metric :=
  [.compactionAppliedTotal, .contextOriginalTokens, .contextFinalTokens,
    .contextSavedTokensTotal, .compressionRatio, .compactionSkippedTotal, .compactionDuration]

/-- What the attempts update. -/
def attemptMetrics : List Metric :=
  [.failoverTotal, .fallbackModeTotal, .providerErrorsTotal, .payloadTranslation,
    .backendLatency, .llmTokensTotal]

/-- What the return updates. -/
def exitMetrics : List Metric :=
  [.fallbackModeTotal, .requestsTotal, .requestDuration, .internalOverhead, .gatewayOverhead]

section Of

theorem compactionSamples_of (U : Unicode) (config : CompactorConfig) (payload : Value) :
    ∀ x ∈ compactionSamples U config payload, x.Of compactionMetrics := by
  unfold compactionSamples
  split
  · dsimp only
    split_ifs <;>
      simp [once, incBy, Sample.Of, Sample.WellLabelled, Metric.labels, compactionMetrics]
  · simp [once, Sample.Of, Sample.WellLabelled, Metric.labels, compactionMetrics]

theorem circuitOpenSamples_of (selectedName : String) :
    ∀ x ∈ circuitOpenSamples selectedName, x.Of attemptMetrics := by
  simp [circuitOpenSamples, once, Sample.Of, Sample.WellLabelled, Metric.labels, attemptMetrics]

theorem usageSamples_of (effectiveModel : String) (v : Value) :
    ∀ x ∈ usageSamples effectiveModel v, x.Of attemptMetrics := by
  unfold usageSamples
  split <;> simp [incBy, Sample.Of, Sample.WellLabelled, Metric.labels, attemptMetrics]

theorem sendSamples_of (J : SerdeJson) (model name providerType : String)
    (outcome : Except ClientError (List UInt8)) :
    ∀ x ∈ (sendSamples J model name providerType outcome).1 ++
      (sendSamples J model name providerType outcome).2, x.Of attemptMetrics := by
  unfold sendSamples
  split
  · dsimp only
    split
    · exact usageSamples_of _ _
    · simp
  · dsimp only
    split_ifs <;> simp [once, Sample.Of, Sample.WellLabelled, Metric.labels, attemptMetrics]
  · simp [once, Sample.Of, Sample.WellLabelled, Metric.labels, attemptMetrics]
  · simp [once, Sample.Of, Sample.WellLabelled, Metric.labels, attemptMetrics]

theorem exchangeSamples_of (job : Job) (name : String) (endpoint : Endpoint) (reply : Reply) :
    ∀ x ∈ (exchangeSamples job name endpoint reply).1 ++
      (exchangeSamples job name endpoint reply).2, x.Of attemptMetrics := by
  unfold exchangeSamples
  dsimp only
  split_ifs
  · simp [once, Sample.Of, Sample.WellLabelled, Metric.labels, attemptMetrics]
  · exact List.forall_mem_cons.mpr
      ⟨⟨rfl, by simp [once, attemptMetrics]⟩, sendSamples_of _ _ _ _ _⟩

theorem exitSamples_of (req : ChatRequest) (providerTypeUsed : String) (run : LoopState × Exit) :
    ∀ x ∈ exitSamples req providerTypeUsed run, x.Of exitMetrics := by
  unfold exitSamples
  split
  · split <;> simp [once, Sample.Of, Sample.WellLabelled, Metric.labels, exitMetrics]
  · simp

end Of

end Melis.Router
