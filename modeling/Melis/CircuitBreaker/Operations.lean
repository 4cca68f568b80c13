import Melis.CircuitBreaker.Model
import Melis.Lib.Run

/-!
# Runs of the local circuit breaker

The calls of `is_available` and `record_result` on one `LocalCircuitBreaker`, for
any providers in any order, as a transition system. The calls take the map's
write lock one after another, so that their clock readings do not decrease.

* `step_effect`: what a call does to the state of one provider.
-/

namespace Melis.CircuitBreaker

/-- A call, with the clock reading it takes. -/
inductive Operation where
  | isAvailable (provider : String) (now : Instant)
  | recordResult (provider : String) (result : CallResult) (now : Instant)
deriving DecidableEq

/-- The clock reading of the call. -/
def Operation.now : Operation → Instant
  | isAvailable _ now => now
  | recordResult _ _ now => now

/-- The map of providers, and the latest clock reading. -/
structure Breaker where
  states : States
  clock : Instant

/-- `LocalCircuitBreaker::new`, at `clock`. -/
def Breaker.new (clock : Instant) : Breaker where
  states := .new
  clock := clock

/-- The calls on a breaker with the configuration `config`. -/
def operations (config : CircuitBreakerConfig) : Lib.System Breaker Operation where
  enabled s op := s.clock ≤ op.now
  step s
    | .isAvailable p now => ⟨(CircuitBreaker.isAvailable config s.states p now).2, now⟩
    | .recordResult p r now => ⟨CircuitBreaker.recordResult config s.states p r now, now⟩

/-- The state of `p`, which is created closed when it is first needed. -/
def Breaker.provider (config : CircuitBreakerConfig) (s : Breaker) (p : String) : ProviderState :=
  entry config s.states p

@[simp] theorem provider_new (config : CircuitBreakerConfig) (clock : Instant) (p : String) :
    (Breaker.new clock).provider config p = .new (Duration.fromSecs config.openTtlSecs) := rfl

@[simp] theorem step_clock (config : CircuitBreakerConfig) (s : Breaker) (op : Operation) :
    ((operations config).step s op).clock = op.now := by
  match op with
  | .isAvailable _ _ => rfl
  | .recordResult _ _ _ => rfl

theorem step_isAvailable (config : CircuitBreakerConfig) (s : Breaker) (p : String)
    (now : Instant) : ((operations config).step s (.isAvailable p now)).provider config p =
      ((s.provider config p).isAvailable now).2 := by
  show entry config (CircuitBreaker.isAvailable config s.states p now).2 p = _
  rw [entry, isAvailable_self, Option.getD_some]
  rfl

theorem step_recordResult (config : CircuitBreakerConfig) (s : Breaker) (p : String)
    (r : CallResult) (now : Instant) :
    ((operations config).step s (.recordResult p r now)).provider config p =
      (s.provider config p).recordResult config r now := by
  show entry config (CircuitBreaker.recordResult config s.states p r now) p = _
  rw [entry, recordResult_self, Option.getD_some]
  rfl

/-- A call about one provider leaves the others alone. -/
theorem step_other (config : CircuitBreakerConfig) (s : Breaker) {op : Operation} {p : String}
    (hasked : ∀ now, op ≠ .isAvailable p now) (hrecorded : ∀ r now, op ≠ .recordResult p r now) :
    ((operations config).step s op).provider config p = s.provider config p := by
  match op with
  | .isAvailable q now =>
    have hq : p ≠ q := fun h => hasked now (h ▸ rfl)
    show entry config (CircuitBreaker.isAvailable config s.states q now).2 p = _
    rw [entry, isAvailable_other config s.states hq]
    rfl
  | .recordResult q r now =>
    have hq : p ≠ q := fun h => hrecorded r now (h ▸ rfl)
    show entry config (CircuitBreaker.recordResult config s.states q r now) p = _
    rw [entry, recordResult_other config s.states hq]
    rfl

/-- A call asks for `p`, records a result for `p`, or leaves `p` alone. -/
inductive Effect (config : CircuitBreakerConfig) (p : String) (s : Breaker) :
    Operation → ProviderState → Prop
  | other (op : Operation) (hasked : ∀ now, op ≠ .isAvailable p now)
      (hrecorded : ∀ r now, op ≠ .recordResult p r now) :
      Effect config p s op (s.provider config p)
  | asked (now : Instant) :
      Effect config p s (.isAvailable p now) ((s.provider config p).isAvailable now).2
  | recorded (r : CallResult) (now : Instant) :
      Effect config p s (.recordResult p r now) ((s.provider config p).recordResult config r now)

theorem step_effect (config : CircuitBreakerConfig) (s : Breaker) (op : Operation) (p : String) :
    Effect config p s op (((operations config).step s op).provider config p) := by
  by_cases hasked : ∃ now, op = .isAvailable p now
  · obtain ⟨now, rfl⟩ := hasked
    rw [step_isAvailable]
    exact .asked now
  by_cases hrecorded : ∃ r now, op = .recordResult p r now
  · obtain ⟨r, now, rfl⟩ := hrecorded
    rw [step_recordResult]
    exact .recorded r now
  · push Not at hasked hrecorded
    rw [step_other config s hasked hrecorded]
    exact .other op hasked hrecorded

end Melis.CircuitBreaker
