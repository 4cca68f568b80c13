import Melis.Common.F64
import Melis.Common.Time
import Melis.Lib.Run

/-!
# The local rate limiter (`rate_limiter.rs`)

`LocalTokenBucket`: a bucket of tokens for each client, in a map behind a mutex.
`try_acquire` reads the monotonic clock twice: first for `now`, which becomes the
bucket's `last_refill`, and again inside `last_refill.elapsed()`, from which the
refill is computed.

* `tryAcquire_other`: a call leaves the buckets of other clients alone.
* `admits_iff`: a call is admitted if the refilled bucket holds a
  token.
-/

namespace Melis.RateLimiter

/-- `RateLimitConfig` (lines 15–21). -/
structure RateLimitConfig where
  burstCapacity : ℕ
  refillRate : F64
deriving DecidableEq

/-- `BucketState` (lines 150–153). -/
structure BucketState where
  tokens : F64
  lastRefill : Instant
deriving DecidableEq

/-- `LocalTokenBucket::state`. -/
abbrev Buckets := String → Option BucketState

/-- `LocalTokenBucket::new` (lines 157–161). -/
def Buckets.new : Buckets := fun _ => none

/-- `refilled` (lines 188–192), with `later` as the clock reading of `elapsed`. -/
def BucketState.refilled (config : RateLimitConfig) (bucket : BucketState) (later : Instant) :
    F64 :=
  let elapsedSecs := Duration.asSecsF64 (later - bucket.lastRefill)
  (F64.ofNat config.burstCapacity).min (bucket.tokens.add (elapsedSecs.mul config.refillRate))

/-- `state.entry(client_id).or_insert_with(…)` (lines 180–185). -/
def Buckets.entry (config : RateLimitConfig) (buckets : Buckets) (clientId : String)
    (now : Instant) : BucketState :=
  (buckets clientId).getD ⟨F64.ofNat config.burstCapacity, now⟩

/-- `try_acquire` (lines 172–206): the tokens that remain, or the seconds to wait,
    with the buckets after the call. -/
def tryAcquire (buckets : Buckets) (clientId : String) (config : RateLimitConfig)
    (now later : Instant) : Except ℕ ℕ × Buckets :=
  let bucket := buckets.entry config clientId now
  let refilled := bucket.refilled config later
  if (F64.finite 1).le refilled then
    (.ok (refilled.toNat - 1),
      Function.update buckets clientId (some ⟨refilled.sub (.finite 1), now⟩))
  else
    (.error (((F64.finite 1).sub refilled).div config.refillRate).ceil.toNat,
      Function.update buckets clientId (some bucket))

/-- The call is admitted. -/
def admits (buckets : Buckets) (clientId : String) (config : RateLimitConfig)
    (now later : Instant) : Bool :=
  (tryAcquire buckets clientId config now later).1.isOk

section Calls

variable {buckets : Buckets} {clientId : String} {config : RateLimitConfig} {now later : Instant}

theorem tryAcquire_other {other : String} (h : other ≠ clientId) :
    (tryAcquire buckets clientId config now later).2 other = buckets other := by
  unfold tryAcquire
  dsimp only
  split_ifs
  · exact Function.update_of_ne h _ _
  · exact Function.update_of_ne h _ _

theorem admits_iff : admits buckets clientId config now later = true ↔
    (F64.finite 1).le ((buckets.entry config clientId now).refilled config later) = true := by
  unfold admits tryAcquire
  dsimp only
  split_ifs with h
  · simp [h, Except.isOk, Except.toBool]
  · simp [h, Except.isOk, Except.toBool]

/-- An admitted call takes a token from the refilled bucket. -/
theorem tryAcquire_of_admits (h : admits buckets clientId config now later = true) :
    (tryAcquire buckets clientId config now later).2 clientId =
      some ⟨((buckets.entry config clientId now).refilled config later).sub (.finite 1), now⟩ := by
  unfold tryAcquire
  rw [if_pos (admits_iff.mp h)]
  exact Function.update_self _ _ _

/-- A rejected call leaves the client's bucket as it is, or creates it full. -/
theorem tryAcquire_of_not_admits (h : admits buckets clientId config now later = false) :
    (tryAcquire buckets clientId config now later).2 clientId =
      some (buckets.entry config clientId now) := by
  unfold tryAcquire
  rw [if_neg (fun hle => by rw [admits_iff.mpr hle] at h; cases h)]
  exact Function.update_self _ _ _

end Calls

/-! ## Runs -/

/-- A call of `try_acquire`, with its two clock readings. -/
structure Acquire where
  clientId : String
  config : RateLimitConfig
  now : Instant
  later : Instant
deriving DecidableEq

/-- The buckets, and the latest clock reading. -/
structure Limiter where
  buckets : Buckets
  clock : Instant

/-- A new limiter. -/
def Limiter.new (clock : Instant) : Limiter where
  buckets := .new
  clock := clock

/-- The calls on one limiter. The mutex is held from before the first clock
    reading until the end of the call. -/
def limiter : Lib.System Limiter Acquire where
  enabled s c := s.clock ≤ c.now ∧ c.now ≤ c.later
  step s c :=
    { buckets := (tryAcquire s.buckets c.clientId c.config c.now c.later).2
      clock := c.later }

end Melis.RateLimiter
