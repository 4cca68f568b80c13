import Melis.Config.Basic

/-!
# The local circuit breaker (`circuit_breaker.rs`)

`LocalCircuitBreaker`: one state machine per provider, in a map from provider
names. Each operation takes the map's write lock, reads the clock once and runs
to the end; it is a function of the map and the clock reading.

* `ProviderState.isAvailable_eq_true_iff`: when a provider admits a call.
* `ProviderState.recordResult_state_ne_halfOpen`: no result leads to `HalfOpen`.
* `isAvailable_other`, `recordResult_other`: an operation on one provider leaves
  the others alone.
-/

namespace Melis.CircuitBreaker

/-- `CallResult` (lines 24–33). -/
inductive CallResult where
  | success
  | failure
  | rateLimited
  | timeout
deriving DecidableEq

/-- `CircuitState` (lines 37–47). `opened` is `Open`. -/
inductive CircuitState where
  | closed
  | opened (openUntil : Instant) (backoffTtl : Duration)
  | halfOpen
deriving DecidableEq

/-- `ProviderState` (lines 67–75). -/
structure ProviderState where
  state : CircuitState
  failures : List Instant
  totalRequests : List Instant
  currentBackoff : Duration
deriving DecidableEq

/-- `ProviderState::new` (lines 78–85). -/
def ProviderState.new (initialTtl : Duration) : ProviderState where
  state := .closed
  failures := []
  totalRequests := []
  currentBackoff := initialTtl

/-- `prune_window` (lines 107–110). -/
def pruneWindow (timestamps : List Instant) (window : Duration) (now : Instant) : List Instant :=
  let cutoff := (now.checkedSub window).getD now
  timestamps.filter fun t => decide (cutoff < t)

/-! ## One provider -/

namespace ProviderState

/-- The `match` of `is_available` (lines 125–140). -/
def isAvailable (provider : ProviderState) (now : Instant) : Bool × ProviderState :=
  match provider.state with
  | .closed => (true, provider)
  | .opened openUntil _ =>
    if openUntil ≤ now then (true, { provider with state := .halfOpen })
    else (false, provider)
  | .halfOpen => (true, provider)

/-- `failure_rate` (lines 183–184), in exact arithmetic. -/
def failureRate (failures totalInWindow : ℕ) : F64 :=
  ((F64.ofNat failures).div (F64.ofNat totalInWindow)).mul (.finite 100)

/-- The circuit opens at `now` for `ttl` (lines 171–176, 187–192 and 210–214). The code
    panics where `now + ttl` is beyond `Instant.last`. -/
def openFor (provider : ProviderState) (now : Instant) (ttl : Duration) : ProviderState :=
  { provider with state := .opened (now + ttl) ttl, currentBackoff := ttl }

/-- `capped_ttl` (lines 205–208). -/
def cappedTtl (config : CircuitBreakerConfig) (currentBackoff : Duration) : Duration :=
  let baseSecs := max currentBackoff.asSecs 1
  let product := F64.Rounding.nearest.mul (F64.Rounding.nearest.cast baseSecs) config.backoffFactor
  let newTtlSecs := product.toNat
  Duration.fromSecs (min newTtlSecs config.maxTtlSecs)

/-- The windows after `record_result` has pushed and pruned (lines 154–165). -/
def record (config : CircuitBreakerConfig) (provider : ProviderState) (result : CallResult)
    (now : Instant) : ProviderState :=
  let window := Duration.fromSecs config.windowDurationSecs
  let failures :=
    if result == .success then provider.failures else provider.failures ++ [now]
  { provider with
    totalRequests := pruneWindow (provider.totalRequests ++ [now]) window now
    failures := pruneWindow failures window now }

/-- `record_result` on its provider (lines 151–220). -/
def recordResult (config : CircuitBreakerConfig) (provider : ProviderState)
    (result : CallResult) (now : Instant) : ProviderState :=
  let initialTtl := Duration.fromSecs config.openTtlSecs
  let provider := provider.record config result now
  match provider.state with
  | .closed =>
    if result == .rateLimited then provider.openFor now initialTtl
    else
      let totalInWindow := provider.totalRequests.length
      if config.minRequestsInWindow ≤ totalInWindow then
        if config.failureThresholdPercent.lt
            (failureRate provider.failures.length totalInWindow) then
          provider.openFor now initialTtl
        else provider
      else provider
  | .halfOpen =>
    if result == .success then
      { state := .closed, failures := [], totalRequests := [], currentBackoff := initialTtl }
    else provider.openFor now (cappedTtl config provider.currentBackoff)
  | .opened _ _ => provider

theorem isAvailable_eq_true_iff {provider : ProviderState} {now : Instant} :
    (provider.isAvailable now).1 = true ↔
      ∀ openUntil ttl, provider.state = .opened openUntil ttl → openUntil ≤ now := by
  unfold isAvailable
  cases hs : provider.state with
  | closed => simp
  | opened openUntil ttl =>
    by_cases h : openUntil ≤ now <;> simp [h]
  | halfOpen => simp

/-- A provider that is available stays available as time goes by. -/
theorem isAvailable_mono {provider : ProviderState} {now later : Instant} (h : now ≤ later)
    (havail : (provider.isAvailable now).1 = true) : (provider.isAvailable later).1 = true :=
  isAvailable_eq_true_iff.mpr fun openUntil ttl hs =>
    (isAvailable_eq_true_iff.mp havail openUntil ttl hs).trans h

/-- `is_available` changes nothing, or lets the probe through an expired
    circuit. -/
theorem isAvailable_cases (provider : ProviderState) (now : Instant) :
    (provider.isAvailable now).2 = provider ∨
      ∃ openUntil ttl, provider.state = .opened openUntil ttl ∧ openUntil ≤ now ∧
        provider.isAvailable now = (true, { provider with state := .halfOpen }) := by
  unfold isAvailable
  cases hs : provider.state with
  | closed => exact .inl rfl
  | opened openUntil ttl =>
    by_cases h : openUntil ≤ now
    · exact .inr ⟨openUntil, ttl, rfl, h, by simp [h]⟩
    · exact .inl (by simp [h])
  | halfOpen => exact .inl rfl

@[simp] theorem record_state (config : CircuitBreakerConfig) (provider : ProviderState)
    (result : CallResult) (now : Instant) :
    (provider.record config result now).state = provider.state := rfl

/-- A result does not enter `HalfOpen`, and in `HalfOpen` it leaves. -/
theorem recordResult_state_ne_halfOpen {config : CircuitBreakerConfig} {provider : ProviderState}
    (result : CallResult) (now : Instant) :
    (provider.recordResult config result now).state ≠ .halfOpen := by
  cases hs : provider.state with
  | closed =>
    simp only [recordResult, record_state, hs]
    split_ifs <;> simp [openFor, hs]
  | opened openUntil ttl => simp [recordResult, hs]
  | halfOpen =>
    simp only [recordResult, record_state, hs]
    split_ifs <;> simp [openFor]

/-- The check of a closed circuit, on the windows with the result in them
    (lines 170–193). -/
def trips (config : CircuitBreakerConfig) (provider : ProviderState) (result : CallResult) : Bool :=
  result == .rateLimited ||
    decide (config.minRequestsInWindow ≤ provider.totalRequests.length) &&
      config.failureThresholdPercent.lt
        (failureRate provider.failures.length provider.totalRequests.length)

/-- What a result can do. -/
inductive ResultStep (config : CircuitBreakerConfig) (provider : ProviderState)
    (result : CallResult) (now : Instant) : ProviderState → Prop
  | stays (hstate : provider.state = .closed)
      (htrips : trips config (provider.record config result now) result = false) :
      ResultStep config provider result now (provider.record config result now)
  | opens (hstate : provider.state = .closed)
      (htrips : trips config (provider.record config result now) result = true) :
      ResultStep config provider result now ((provider.record config result now).openFor now
        (Duration.fromSecs config.openTtlSecs))
  | ignored (openUntil : Instant) (ttl : Duration)
      (hstate : provider.state = .opened openUntil ttl) :
      ResultStep config provider result now (provider.record config result now)
  | closes (hstate : provider.state = .halfOpen) (hresult : result = .success) :
      ResultStep config provider result now (.new (Duration.fromSecs config.openTtlSecs))
  | reopens (hstate : provider.state = .halfOpen) (hresult : result ≠ .success) :
      ResultStep config provider result now ((provider.record config result now).openFor now
        (cappedTtl config provider.currentBackoff))

theorem recordResult_step (config : CircuitBreakerConfig) (provider : ProviderState)
    (result : CallResult) (now : Instant) :
    ResultStep config provider result now (provider.recordResult config result now) := by
  unfold recordResult
  dsimp only
  cases hs : provider.state with
  | closed =>
    rw [record_state, hs]
    dsimp only
    split_ifs with hlimited hmin hrate
    · exact .opens hs (by simp [trips, hlimited])
    · exact .opens hs (by simp [trips, hmin, hrate])
    · exact .stays hs (by simp [trips, hlimited, hrate])
    · exact .stays hs (by simp [trips, hlimited, hmin])
  | opened openUntil ttl =>
    rw [record_state, hs]
    exact .ignored openUntil ttl hs
  | halfOpen =>
    rw [record_state, hs]
    dsimp only
    split_ifs with hsuccess
    · exact .closes hs (by simpa using hsuccess)
    · exact .reopens hs (by simpa using hsuccess)

end ProviderState

/-! ## The map of providers -/

/-- `LocalCircuitBreaker::states`. -/
abbrev States := String → Option ProviderState

/-- `states.entry(provider_id).or_insert_with(…)` (lines 119–121 and 147–149). -/
def entry (config : CircuitBreakerConfig) (states : States) (providerId : String) :
    ProviderState :=
  (states providerId).getD (.new (Duration.fromSecs config.openTtlSecs))

/-- `is_available` (lines 115–141). -/
def isAvailable (config : CircuitBreakerConfig) (states : States) (providerId : String)
    (now : Instant) : Bool × States :=
  let answer := (entry config states providerId).isAvailable now
  (answer.1, Function.update states providerId (some answer.2))

/-- `record_result` (lines 143–221). -/
def recordResult (config : CircuitBreakerConfig) (states : States) (providerId : String)
    (result : CallResult) (now : Instant) : States :=
  Function.update states providerId
    (some ((entry config states providerId).recordResult config result now))

/-- `LocalCircuitBreaker::new` (lines 99–104). -/
def States.new : States := fun _ => none

/-- A new breaker lets every call through. -/
theorem isAvailable_new (config : CircuitBreakerConfig) (p : String) (now : Instant) :
    (isAvailable config .new p now).1 = true := rfl

section Frame

variable (config : CircuitBreakerConfig) (states : States)

@[simp] theorem isAvailable_self (p : String) (now : Instant) :
    (isAvailable config states p now).2 p =
      some ((entry config states p).isAvailable now).2 := by
  simp [isAvailable]

/-- The answer depends on the provider's own state only. -/
theorem isAvailable_congr {states states' : States} {p : String} (h : states p = states' p)
    (now : Instant) :
    (isAvailable config states p now).1 = (isAvailable config states' p now).1 := by
  simp [isAvailable, entry, h]

theorem isAvailable_other {p q : String} (h : q ≠ p) (now : Instant) :
    (isAvailable config states p now).2 q = states q := by
  simp [isAvailable, Function.update_of_ne h]

@[simp] theorem recordResult_self (p : String) (r : CallResult) (now : Instant) :
    recordResult config states p r now p =
      some ((entry config states p).recordResult config r now) := by
  simp [recordResult]

theorem recordResult_other {p q : String} (h : q ≠ p) (r : CallResult) (now : Instant) :
    recordResult config states p r now q = states q := by
  simp [recordResult, Function.update_of_ne h]

end Frame

end Melis.CircuitBreaker
