import Melis.Common.Lines
import Melis.Config.Basic

/-!
# Validation of the configuration (`config.rs`)

`GatewayConfig::validate` collects the errors of each section and accepts a
configuration without errors. Its comparisons of `f64` values are false for NaN, so
that NaN passes them.

* `circuitBreakerErrors_eq_nil_iff`, `rateLimitErrors_eq_nil_iff`, `authErrors_eq_nil_iff`:
  what these sections accept.
* `circuitBreakerErrors_default`, `rateLimitErrors_default`: the defaults are accepted.
* `validate_eq_ok_iff`: what is accepted as a whole.
-/

namespace Melis

/-! ## The circuit breaker -/

/-- The circuit breaker section of `GatewayConfig::validate` (lines 547–575).
    `display` is the `Display` of `f64`. -/
def circuitBreakerErrors (display : F64 → String) (c : CircuitBreakerConfig) : List String :=
  (if c.failureThresholdPercent.le (.finite 0) ||
      (F64.finite 100).lt c.failureThresholdPercent then
    ["circuit_breaker.failure_threshold_percent must be between 0 (exclusive) and 100 " ++
      s!"(inclusive), got {display c.failureThresholdPercent}"]
  else []) ++
  (if c.windowDurationSecs = 0 then ["circuit_breaker.window_duration_secs must be > 0"]
  else []) ++
  (if c.openTtlSecs = 0 then ["circuit_breaker.open_ttl_secs must be > 0"] else []) ++
  (if c.maxTtlSecs < c.openTtlSecs then
    [s!"circuit_breaker.max_ttl_secs ({c.maxTtlSecs}) must be >= open_ttl_secs ({c.openTtlSecs})"]
  else []) ++
  (if c.backoffFactor.lt (.finite 1) then
    [s!"circuit_breaker.backoff_factor must be >= 1.0, got {display c.backoffFactor}"]
  else [])

/-- What the section accepts: in range, or not comparable. -/
theorem circuitBreakerErrors_eq_nil_iff {display : F64 → String} {c : CircuitBreakerConfig} :
    circuitBreakerErrors display c = [] ↔
      c.failureThresholdPercent.le (.finite 0) = false ∧
      (F64.finite 100).lt c.failureThresholdPercent = false ∧
      c.windowDurationSecs ≠ 0 ∧ c.openTtlSecs ≠ 0 ∧ c.openTtlSecs ≤ c.maxTtlSecs ∧
      c.backoffFactor.lt (.finite 1) = false := by
  simp [circuitBreakerErrors, and_assoc]

theorem circuitBreakerErrors_default (display : F64 → String) :
    circuitBreakerErrors display .default = [] := by
  rw [circuitBreakerErrors_eq_nil_iff]
  decide +kernel

/-! ## The other sections -/

/-- The checks of the server (lines 468–477). -/
def serverErrors (c : ServerConfig) : List String :=
  (if c.port = 0 then ["server.port must be > 0"] else []) ++
  (if c.maxPayloadSize = 0 then ["server.max_payload_size must be > 0"] else []) ++
  (if c.maxConcurrentConnections = 0 then ["server.max_concurrent_connections must be > 0"]
  else [])

/-- The checks of Redis (lines 479–490). -/
def redisErrors (c : RedisConfig) : List String :=
  (if c.clusterUrls.isEmpty then ["redis.cluster_urls must contain at least one URL"] else []) ++
  (c.clusterUrls.zipIdx.flatMap fun (url, i) =>
    if isBlank url then [s!"redis.cluster_urls[{i}] must not be empty"] else []) ++
  (if c.poolSize = 0 then ["redis.pool_size must be > 0"] else [])

/-- `valid_types` (lines 509–516). -/
def validTypes : List String :=
  ["openai", "anthropic", "google_vertex_ai", "vertex_anthropic", "oci_genai", "ollama"]

/-- The checks of the provider at position `i` (lines 494–526). -/
def providerErrors (i : ℕ) (provider : ProviderEntry) : List String :=
  (if isBlank provider.id then [s!"providers[{i}].id must not be empty"] else []) ++
  (if isBlank provider.baseUrl then [s!"providers[{i}].base_url must not be empty"] else []) ++
  (if provider.providerType != "vertex_anthropic" && isBlank provider.apiKey then
    [s!"providers[{i}].api_key must not be empty"]
  else []) ++
  (if provider.weight = 0 then [s!"providers[{i}].weight must be > 0"] else []) ++
  (if !validTypes.contains provider.providerType then
    let valid := ", ".intercalate validTypes
    [s!"providers[{i}].provider_type '{provider.providerType}' is invalid. " ++
      s!"Valid values: {valid}"]
  else [])

/-- The checks of the compactor (lines 529–538). -/
def compactorErrors (c : CompactorConfig) : List String :=
  (if c.tokenThreshold < 512 || c.tokenThreshold > 128000 then
    [s!"compactor.token_threshold must be between 512 and 128000, got {c.tokenThreshold}"]
  else []) ++
  (if isBlank c.tokenizerName then ["compactor.tokenizer_name must not be empty"] else [])

/-- The checks of the rate limit (lines 540–546). -/
def rateLimitErrors (c : RateLimitDefaults) : List String :=
  (if c.burstCapacity = 0 then ["rate_limit.burst_capacity must be > 0"] else []) ++
  (if c.refillRate.le (.finite 0) then ["rate_limit.refill_rate must be > 0.0"] else [])

/-- The checks of the API keys (lines 576–589). The overrides of the rate limit are not
    among them. -/
def authErrors (c : AuthConfig) : List String :=
  (if c.enabled && c.apiKeys.isEmpty then
    ["auth.api_keys must contain at least one entry when auth is enabled"]
  else []) ++
  c.apiKeys.zipIdx.flatMap fun (entry, i) =>
    (if isBlank entry.key then [s!"auth.api_keys[{i}].key must not be empty"] else []) ++
    (if isBlank entry.clientId then [s!"auth.api_keys[{i}].client_id must not be empty"] else [])

/-- `GatewayConfig::validate` (lines 465–596). -/
def LoadedConfig.validate (display : F64 → String) (c : LoadedConfig) :
    Except (List String) Unit :=
  let errors := serverErrors c.server ++ redisErrors c.redis ++
    (c.providers.zipIdx.flatMap fun (provider, i) => providerErrors i provider) ++
    compactorErrors c.compactor ++ rateLimitErrors c.rateLimit ++
    circuitBreakerErrors display c.circuitBreaker ++ authErrors c.auth
  if errors.isEmpty then .ok () else .error errors

/-! ## What is accepted -/

theorem rateLimitErrors_eq_nil_iff {c : RateLimitDefaults} :
    rateLimitErrors c = [] ↔ c.burstCapacity ≠ 0 ∧ c.refillRate.le (.finite 0) = false := by
  simp [rateLimitErrors]

theorem rateLimitErrors_default : rateLimitErrors .default = [] := by
  rw [rateLimitErrors_eq_nil_iff]
  decide +kernel

theorem flatMap_zipIdx_eq_nil_iff {α : Type*} (errors : ℕ → α → List String) (xs : List α) :
    (xs.zipIdx.flatMap fun (x, i) => errors i x) = [] ↔
      ∀ i x, xs[i]? = some x → errors i x = [] := by
  rw [List.flatMap_eq_nil_iff]
  constructor
  · exact fun h i x hx => h (x, i) (List.mem_zipIdx_iff_getElem?.mpr hx)
  · rintro h ⟨x, i⟩ hx
    exact h i x (List.mem_zipIdx_iff_getElem?.mp hx)

theorem authErrors_eq_nil_iff {c : AuthConfig} :
    authErrors c = [] ↔ (c.enabled = true → c.apiKeys ≠ []) ∧
      ∀ entry ∈ c.apiKeys, isBlank entry.key = false ∧ isBlank entry.clientId = false := by
  have hentries := flatMap_zipIdx_eq_nil_iff (fun i (entry : ApiKeyEntry) =>
    (if isBlank entry.key then [s!"auth.api_keys[{i}].key must not be empty"] else []) ++
    (if isBlank entry.clientId then [s!"auth.api_keys[{i}].client_id must not be empty"]
    else [])) c.apiKeys
  rw [authErrors, List.append_eq_nil_iff, hentries]
  refine and_congr (by simp) ⟨fun h entry hentry => ?_, fun h i entry hi => ?_⟩
  · obtain ⟨i, hi⟩ := List.mem_iff_getElem?.mp hentry
    simpa using h i entry hi
  · simpa using h entry (List.mem_of_getElem? hi)

/-- Every section is accepted. -/
theorem LoadedConfig.validate_eq_ok_iff {display : F64 → String} {c : LoadedConfig} :
    c.validate display = .ok () ↔
      serverErrors c.server = [] ∧ redisErrors c.redis = [] ∧
      (∀ i provider, c.providers[i]? = some provider → providerErrors i provider = []) ∧
      compactorErrors c.compactor = [] ∧ rateLimitErrors c.rateLimit = [] ∧
      circuitBreakerErrors display c.circuitBreaker = [] ∧ authErrors c.auth = [] := by
  unfold LoadedConfig.validate
  dsimp only
  rw [← flatMap_zipIdx_eq_nil_iff providerErrors c.providers]
  constructor
  · intro h
    split_ifs at h with hnil
    simpa [and_assoc] using hnil
  · intro h
    rw [if_pos]
    simpa [and_assoc] using h

end Melis
