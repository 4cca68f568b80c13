import Melis.Common.F64
import Melis.Common.Time

/-!
# Gateway configuration (`config.rs`)

The configuration structs with the fields the modelled functions read.
Unsigned integers are natural numbers and `f64` fields are `F64`.
-/

namespace Melis

/-- `CompactorConfig` (`config.rs` lines 201–225). -/
structure CompactorConfig where
  tokenThreshold : ℕ
  maxHistoryMessages : ℕ
  stopWords : List String
  tokenizerName : String
  targetTokenRatio : F64
  minFinalTokens : ℕ
  criticalMarkers : List String
  preserveCriticalMarkers : Bool
  strategy : String
deriving DecidableEq

/-- `CompactorConfig::default` (`config.rs` lines 227–269). -/
def CompactorConfig.default : CompactorConfig where
  tokenThreshold := 4096
  maxHistoryMessages := 20
  stopWords := []
  tokenizerName := "cl100k_base"
  targetTokenRatio := (F64.finite (45 / 100)).nearest
  minFinalTokens := 200
  criticalMarkers := []
  preserveCriticalMarkers := true
  strategy := "adaptive_trimming"

/-- `CircuitBreakerConfig` (`config.rs` lines 273–286). -/
structure CircuitBreakerConfig where
  failureThresholdPercent : F64
  windowDurationSecs : ℕ
  minRequestsInWindow : ℕ
  openTtlSecs : ℕ
  maxTtlSecs : ℕ
  backoffFactor : F64
deriving DecidableEq

/-- `CircuitBreakerConfig::default` (`config.rs` lines 302–337). -/
def CircuitBreakerConfig.default : CircuitBreakerConfig where
  failureThresholdPercent := .finite 50
  windowDurationSecs := 60
  minRequestsInWindow := 5
  openTtlSecs := 30
  maxTtlSecs := 300
  backoffFactor := .finite 2

/-- `ProviderConfig` (`config.rs` lines 95–123), without the fields no request
    path reads (`weight`, `models`, `project_id`, `region`). -/
structure ProviderConfig where
  id : String
  providerType : String
  baseUrl : String
  apiKey : String
  timeoutSecs : ℕ
deriving DecidableEq

/-- `ProviderConfig::timeout` (`config.rs` lines 125–129). -/
def ProviderConfig.timeout (p : ProviderConfig) : Duration := Duration.fromSecs p.timeoutSecs

/-- The part of `GatewayConfig` (`config.rs` lines 29–46) that the chat
    pipeline reads. -/
structure GatewayConfig where
  providers : List ProviderConfig
  compactor : CompactorConfig
  circuitBreaker : CircuitBreakerConfig
deriving DecidableEq

/-- `ClientRateLimit` (`config.rs` lines 392–397). -/
structure ClientRateLimit where
  burstCapacity : ℕ
  refillRate : F64
deriving DecidableEq

/-- `ApiKeyEntry` (`config.rs` lines 381–390). -/
structure ApiKeyEntry where
  key : String
  clientId : String
  allowedModels : List String := []
  rateLimit : Option ClientRateLimit := none
deriving DecidableEq

/-- `AuthConfig` (`config.rs` lines 373–379). -/
structure AuthConfig where
  apiKeys : List ApiKeyEntry := []
  enabled : Bool := false
deriving DecidableEq

/-! ## The whole configuration -/

/-- `ServerConfig` (`config.rs` lines 53–65), without `host` and
    `graceful_shutdown_timeout_secs`, which nothing checks. -/
structure ServerConfig where
  port : ℕ := 8080
  maxPayloadSize : ℕ := 10 * 1024 * 1024
  maxConcurrentConnections : ℕ := 5000
deriving DecidableEq

/-- `RedisConfig` (`config.rs` lines 140–149), without the timeouts. -/
structure RedisConfig where
  clusterUrls : List String
  poolSize : ℕ := 10
deriving DecidableEq

/-- A `ProviderConfig` with the `weight`, which only validation reads. -/
structure ProviderEntry extends ProviderConfig where
  weight : ℕ := 1
deriving DecidableEq

/-- `RateLimitDefaults` (`config.rs` lines 174–180). -/
structure RateLimitDefaults where
  burstCapacity : ℕ
  refillRate : F64
deriving DecidableEq

/-- `RateLimitDefaults::default` (`config.rs` lines 182–197). -/
def RateLimitDefaults.default : RateLimitDefaults where
  burstCapacity := 100
  refillRate := .finite 10

/-- `GatewayConfig` (`config.rs` lines 29–46) as it is loaded, without `observability`
    and `routes_config_path`, which nothing checks. -/
structure LoadedConfig where
  server : ServerConfig := {}
  redis : RedisConfig
  providers : List ProviderEntry := []
  rateLimit : RateLimitDefaults := .default
  compactor : CompactorConfig := .default
  circuitBreaker : CircuitBreakerConfig := .default
  auth : AuthConfig := {}
deriving DecidableEq

end Melis
