import Melis.Lib.ExpiringHash
import Melis.RateLimiter.Model

/-!
# The Redis rate limiter (`rate_limiter.rs`)

`RedisTokenBucket`: a hash for each client, written by a Lua script that Redis runs
atomically, and gone an hour after the client's last admitted call. Numbers stand for the
texts they are passed and stored as, and integer replies have no bounds.

* `redisTryAcquire_answer`: the answer, from the refilled bucket as in the local limiter.
* `scriptRefilled_of_fields`, `scriptRefilled_of_expired`: the refilled bucket.
-/

namespace Melis.RateLimiter

open Lib

/-- The hashes in Redis. -/
abbrev Db := HashStore String String F64

/-- `bucket_key` (lines 84–87). -/
def bucketKey (clientId : String) : String := "melis:rl:" ++ clientId

/-- `math.min` of Lua. -/
def luaMin (x y : F64) : F64 := if y.lt x then y else x

/-- A number that a script returns, as an integer reply: the fraction is dropped. -/
def luaInteger : F64 → ℤ
  | .finite q => if 0 ≤ q then ⌊q⌋ else ⌈q⌉
  | _ => 0

section Script

variable (db : Db) (now : ℕ) (key : String) (capacity refillRate nowMs : F64)

/-- `refilled` (lines 47–50). -/
def scriptRefilled : F64 :=
  let tokens := (db.hget now key "tokens").getD capacity
  let last := (db.hget now key "last_refill").getD nowMs
  let elapsed := (nowMs.sub last).div (.finite 1000)
  luaMin capacity (tokens.add (elapsed.mul refillRate))

/-- `TOKEN_BUCKET_LUA` (lines 46–59), when the clock of Redis reads `now` milliseconds. -/
def tokenBucketLua : List ℤ × Db :=
  let refilled := scriptRefilled db now key capacity refillRate nowMs
  if (F64.finite 1).le refilled then
    let left := refilled.sub (.finite 1)
    let db := db.hset now key [("tokens", left), ("last_refill", nowMs)]
    let db := db.expire now key (3600 * 1000)
    ([1, luaInteger left.floor], db)
  else
    let wait := (((F64.finite 1).sub refilled).div refillRate).ceil
    ([0, luaInteger wait], db)

end Script

/-- `n as u64`. -/
def asU64 (n : ℤ) : ℕ := if n < 0 then (n + 2 ^ 64).toNat else n.toNat

/-- What `try_acquire` makes of the reply (lines 117–136); `none` is an error of
    `eval`. -/
def readReply : Option (List ℤ) → Except ℕ ℕ
  | none => .error 0
  | some (status :: n :: _) => if status = 1 then .ok (asU64 n) else .error (asU64 n)
  | some _ => .ok 0

/-- `RedisTokenBucket::try_acquire` (lines 92–137), when both clocks read `nowMs` and
    Redis answers. -/
def redisTryAcquire (db : Db) (clientId : String) (config : RateLimitConfig) (nowMs : ℕ) :
    Except ℕ ℕ × Db :=
  let (reply, db) := tokenBucketLua db nowMs (bucketKey clientId)
    (F64.ofNat config.burstCapacity) config.refillRate (F64.ofNat nowMs)
  (readReply (some reply), db)

/-! ## The answer -/

/-- A burst of one or more and a positive rate, which may be infinite. -/
structure RateLimitConfig.Positive (config : RateLimitConfig) : Prop where
  burst : 1 ≤ config.burstCapacity
  rate : (F64.finite 0).lt config.refillRate = true

/-- A positive rate is a number or infinite. -/
theorem RateLimitConfig.Positive.rate_cases {config : RateLimitConfig} (h : config.Positive) :
    config.refillRate = .posInf ∨ ∃ r, 0 < r ∧ config.refillRate = .finite r := by
  have hrate := h.rate
  cases hr : config.refillRate with
  | nan => simp [hr, F64.lt] at hrate
  | negInf => simp [hr, F64.lt] at hrate
  | posInf => exact .inl rfl
  | finite r => exact .inr ⟨r, by simpa [hr, F64.lt] using hrate, rfl⟩

/-- The answer of the local limiter for a refilled bucket (lines 194–204). -/
def answerOf (config : RateLimitConfig) (refilled : F64) : Except ℕ ℕ :=
  if (F64.finite 1).le refilled then .ok (refilled.toNat - 1)
  else .error (((F64.finite 1).sub refilled).div config.refillRate).ceil.toNat

theorem tryAcquire_answer (buckets : Buckets) (clientId : String) (config : RateLimitConfig)
    (now later : Instant) : (tryAcquire buckets clientId config now later).1 =
      answerOf config ((buckets.entry config clientId now).refilled config later) := by
  unfold tryAcquire answerOf
  dsimp only
  split_ifs <;> rfl

theorem luaInteger_intCast (n : ℤ) : luaInteger (.finite n) = n := by
  rw [luaInteger, Int.floor_intCast, Int.ceil_intCast, ite_self]

theorem asU64_of_nonneg {n : ℤ} (h : 0 ≤ n) : asU64 n = n.toNat := if_neg (not_lt.mpr h)

/-- The wait is finite and not negative. -/
theorem RateLimitConfig.Positive.exists_wait {config : RateLimitConfig} (h : config.Positive)
    {p : ℚ} (hp : p < 1) :
    ∃ x, 0 ≤ x ∧ ((F64.finite 1).sub (.finite p)).div config.refillRate = .finite x := by
  have hpos : 0 ≤ 1 + -p := by linarith
  rcases h.rate_cases with hr | ⟨r, hr', hr⟩
  · rw [hr]
    exact ⟨0, le_rfl, rfl⟩
  · rw [hr]
    exact ⟨_, div_nonneg hpos hr'.le, if_neg hr'.ne'⟩

/-- The Redis limiter answers as the local one does for its refilled bucket. -/
theorem redisTryAcquire_answer {db : Db} {clientId : String} {config : RateLimitConfig}
    {nowMs : ℕ} (h : config.Positive) {p : ℚ}
    (hrefilled : scriptRefilled db nowMs (bucketKey clientId) (F64.ofNat config.burstCapacity)
      config.refillRate (F64.ofNat nowMs) = .finite p) :
    (redisTryAcquire db clientId config nowMs).1 = answerOf config (.finite p) := by
  unfold redisTryAcquire tokenBucketLua answerOf
  dsimp only
  rw [hrefilled]
  split_ifs with hone
  · have hp : 1 ≤ p := by simpa [F64.le] using hone
    have hfloor : ⌊p + -1⌋ = ⌊p⌋ - 1 := by
      rw [← sub_eq_add_neg, Int.floor_sub_one]
    have hpos : 1 ≤ ⌊p⌋ := Int.le_floor.mpr (by simpa using hp)
    show readReply (some [1, luaInteger (.finite (⌊p + -1⌋ : ℤ))]) = .ok (⌊p⌋.toNat - 1)
    rw [luaInteger_intCast, hfloor, readReply, if_pos rfl, asU64_of_nonneg (by omega)]
    congr 1
    omega
  · have hp : p < 1 := by simpa [F64.le] using hone
    obtain ⟨x, hx, hwait⟩ := h.exists_wait hp
    rw [hwait]
    show readReply (some [0, luaInteger (.finite (⌈x⌉ : ℤ))]) = .error ⌊((⌈x⌉ : ℤ) : ℚ)⌋.toNat
    rw [luaInteger_intCast, Int.floor_intCast, readReply, if_neg (by decide),
      asU64_of_nonneg (Int.ceil_nonneg hx)]

/-! ## What is stored -/

section Stored

variable {db : Db} {clientId : String} {config : RateLimitConfig} {nowMs : ℕ}

theorem bucketKey_injective {a b : String} (h : bucketKey a = bucketKey b) : a = b :=
  (String.append_right_inj _).mp h

/-- An admitted call stores its bucket until 3600 seconds later. -/
theorem hget_redisTryAcquire_of_admitted {refilled : F64}
    (hrefilled : scriptRefilled db nowMs (bucketKey clientId) (F64.ofNat config.burstCapacity)
      config.refillRate (F64.ofNat nowMs) = refilled)
    (hone : (F64.finite 1).le refilled = true) (t : ℕ) :
    let db' := (redisTryAcquire db clientId config nowMs).2
    (db'.hget t (bucketKey clientId) "tokens" =
      if t ≤ nowMs + 3600 * 1000 then some (refilled.sub (.finite 1)) else none) ∧
    db'.hget t (bucketKey clientId) "last_refill" =
      if t ≤ nowMs + 3600 * 1000 then some (F64.ofNat nowMs) else none := by
  unfold redisTryAcquire tokenBucketLua
  dsimp only
  rw [hrefilled, if_pos hone]
  constructor
  · rw [HashStore.hget_hset_expire]
    simp [HashStore.write]
  · rw [HashStore.hget_hset_expire]
    simp [HashStore.write]

/-- A rejected call stores nothing. -/
theorem redisTryAcquire_of_rejected {refilled : F64}
    (hrefilled : scriptRefilled db nowMs (bucketKey clientId) (F64.ofNat config.burstCapacity)
      config.refillRate (F64.ofNat nowMs) = refilled)
    (hone : (F64.finite 1).le refilled = false) :
    (redisTryAcquire db clientId config nowMs).2 = db := by
  unfold redisTryAcquire tokenBucketLua
  dsimp only
  rw [hrefilled, hone, if_neg Bool.false_ne_true]

/-- A call leaves the hashes of other clients alone. -/
theorem hget_redisTryAcquire_other {other : String} (h : other ≠ clientId) (t : ℕ)
    (field : String) :
    (redisTryAcquire db clientId config nowMs).2.hget t (bucketKey other) field =
      db.hget t (bucketKey other) field := by
  have hkey : bucketKey other ≠ bucketKey clientId := fun heq => h (bucketKey_injective heq)
  unfold redisTryAcquire tokenBucketLua
  dsimp only
  split_ifs
  · exact HashStore.hget_hset_expire_other hkey field
  · rfl

end Stored

/-! ## The refilled bucket -/

/-- A clock reading of `ms` milliseconds. -/
def millis (ms : ℕ) : Instant := ms * 10 ^ 6

theorem luaMin_finite (x : ℚ) (y : F64) : luaMin (.finite x) y = (F64.finite x).min y := by
  match y with
  | .nan => rfl
  | .negInf => rfl
  | .posInf => rfl
  | .finite y =>
    by_cases h : y < x
    · simp [luaMin, F64.lt, F64.min, h, min_eq_right h.le]
    · simp [luaMin, F64.lt, F64.min, h, min_eq_left (not_lt.mp h)]

/-- The milliseconds of the script are the nanoseconds of `elapsed`. -/
theorem elapsed_eq {lastMs nowMs : ℕ} (h : lastMs ≤ nowMs) :
    ((F64.ofNat nowMs).sub (F64.ofNat lastMs)).div (.finite 1000) =
      Duration.asSecsF64 (millis nowMs - millis lastMs) := by
  have hcast : ((millis nowMs - millis lastMs : ℕ) : ℚ) = nowMs * 10 ^ 6 - lastMs * 10 ^ 6 := by
    rw [Nat.cast_sub (show millis lastMs ≤ millis nowMs from Nat.mul_le_mul_right _ h)]
    norm_num [millis]
  have hdiv : ((F64.ofNat nowMs).sub (F64.ofNat lastMs)).div (.finite 1000) =
      .finite (((nowMs : ℚ) + -lastMs) / 1000) := by
    simp [F64.ofNat, F64.sub, F64.neg, F64.add, F64.div]
  rw [hdiv, Duration.asSecsF64, hcast]
  congr 1
  ring

/-- The script refills the bucket that its fields, or their defaults, hold. -/
theorem scriptRefilled_eq (config : RateLimitConfig) {db : Db} {key : String} {tokens : F64}
    {lastMs nowMs : ℕ} (h : lastMs ≤ nowMs)
    (htokens : (db.hget nowMs key "tokens").getD (F64.ofNat config.burstCapacity) = tokens)
    (hlast : (db.hget nowMs key "last_refill").getD (F64.ofNat nowMs) = F64.ofNat lastMs) :
    scriptRefilled db nowMs key (F64.ofNat config.burstCapacity) config.refillRate
        (F64.ofNat nowMs) =
      (⟨tokens, millis lastMs⟩ : BucketState).refilled config (millis nowMs) := by
  unfold scriptRefilled BucketState.refilled
  dsimp only
  rw [htokens, hlast, elapsed_eq h]
  exact luaMin_finite _ _

section Refilled

variable {config : RateLimitConfig} {q : ℚ} {last now : Instant}

/-- A full bucket is refilled to the burst at once. -/
theorem refilled_full (config : RateLimitConfig) (now : Instant) :
    (⟨F64.ofNat config.burstCapacity, now⟩ : BucketState).refilled config now =
      F64.ofNat config.burstCapacity := by
  unfold BucketState.refilled Duration.asSecsF64
  rw [Nat.sub_self, Nat.cast_zero, zero_div]
  cases config.refillRate with
  | nan => rfl
  | negInf => rfl
  | posInf => rfl
  | finite r =>
    show F64.finite (min _ (_ + 0 * r)) = _
    rw [zero_mul, add_zero, min_self]
    rfl

/-- With an infinite rate a bucket is always full: a NaN is passed over. -/
theorem refilled_infinite (h : config.refillRate = .posInf) :
    (⟨.finite q, last⟩ : BucketState).refilled config now = F64.ofNat config.burstCapacity := by
  have helapsed : (0 : ℚ) ≤ ((now - last : ℕ) : ℚ) / 10 ^ 9 := by positivity
  unfold BucketState.refilled Duration.asSecsF64
  rw [h]
  show F64.min _ ((F64.finite q).add (F64.infOfSign _)) = _
  rcases helapsed.eq_or_lt with hzero | hpos
  · rw [← hzero]
    rfl
  · rw [F64.infOfSign, if_neg hpos.ne', if_pos hpos]
    rfl

/-- A bucket is refilled to a number of tokens within the burst. -/
theorem RateLimitConfig.Positive.exists_refilled (h : config.Positive) (q : ℚ)
    (last now : Instant) :
    ∃ p, (⟨.finite q, last⟩ : BucketState).refilled config now = .finite p ∧
      p ≤ config.burstCapacity := by
  rcases h.rate_cases with hr | ⟨r, -, hr⟩
  · exact ⟨_, refilled_infinite hr, le_rfl⟩
  · rw [BucketState.refilled, hr]
    exact ⟨_, rfl, min_le_left _ _⟩

end Refilled

end Melis.RateLimiter
