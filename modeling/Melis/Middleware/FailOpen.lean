import Melis.Config.Validate
import Melis.Middleware.Model
import Melis.RateLimiter.RetryAfter

/-!
# Whether a rejected request is answered with 429

`rate_limit_middleware` takes a rejection without seconds to wait for a failure of the
backend, and lets the request through. Validation checks the gateway's own rate and not
the clients' overrides of it, and for some of these the local limiter rejects that way.

* `Counted`: the tokens stored are numbers from zero on, whatever the rates.
* `Sound.answer_ne_zero`: the rates for which a rejection has a wait.
* `exists_zero_wait`: for the others some call is rejected without one.
* `enforced_iff`: the clients whose rejected requests are all answered with 429.
* `negative_override`: an override that admits every request.
-/

namespace Melis.Middleware

open RateLimiter

/-! ## The calls of the clients -/

/-- The gateway's own rate limit (`rate_limiter.rs` lines 250–253). -/
def gatewayRateLimit (c : LoadedConfig) : RateLimitConfig :=
  ⟨c.rateLimit.burstCapacity, c.rateLimit.refillRate⟩

/-- The rate limit of a client. -/
def rateLimitOf (c : LoadedConfig) (entry : ApiKeyEntry) : RateLimitConfig :=
  effectiveRateLimit (gatewayRateLimit c) (identityOf entry)

/-- The middleware calls `try_acquire` for a client of the configuration (lines 257–260). -/
def ClientCall (c : LoadedConfig) (call : Acquire) : Prop :=
  ∃ entry ∈ c.auth.apiKeys, call.clientId = entry.clientId ∧ call.config = rateLimitOf c entry

/-- In every state that calls of the clients lead to, a rejected call of this one is
    answered with 429. -/
def Enforced (c : LoadedConfig) (entry : ApiKeyEntry) : Prop :=
  ∀ t₀ tr s, Lib.Run limiter (.new t₀) tr s → (∀ x ∈ tr, ClientCall c x.event) →
    ∀ now later secs, s.clock ≤ now → now ≤ later →
      (tryAcquire s.buckets entry.clientId (rateLimitOf c entry) now later).1 = .error secs →
      rateLimitMiddleware (.error secs) = .error (.rateLimited secs)

theorem rateLimitMiddleware_error_iff {secs : ℕ} :
    rateLimitMiddleware (.error secs) = .error (.rateLimited secs) ↔ secs ≠ 0 := by
  rw [rateLimitMiddleware]
  split_ifs with h <;> simp [h]

/-! ## The tokens stored -/

section Tokens

variable {config : RateLimitConfig} {bucket : BucketState} {later now : Instant} {s : Limiter}

/-- A bucket that holds a token after the refill holds a number of them. -/
theorem exists_refilled_of_one_le (h : (F64.finite 1).le (bucket.refilled config later) = true) :
    ∃ q, 1 ≤ q ∧ bucket.refilled config later = .finite q := by
  rw [BucketState.refilled] at h ⊢
  generalize bucket.tokens.add _ = sum at h ⊢
  cases sum with
  | nan => exact ⟨config.burstCapacity, by simpa [F64.ofNat, F64.min, F64.le] using h, rfl⟩
  | posInf => exact ⟨config.burstCapacity, by simpa [F64.ofNat, F64.min, F64.le] using h, rfl⟩
  | negInf => cases h
  | finite q => exact ⟨_, by simpa [F64.ofNat, F64.min, F64.le] using h, rfl⟩

/-- The tokens of a bucket are a number from zero on. -/
def BucketCounted (bucket : BucketState) : Prop := ∃ q, 0 ≤ q ∧ bucket.tokens = .finite q

/-- The tokens stored are numbers from zero on. -/
def Counted (s : Limiter) : Prop :=
  ∀ client bucket, s.buckets client = some bucket → BucketCounted bucket

theorem counted_new (t₀ : Instant) : Counted (.new t₀) := fun _ _ h => by cases h

/-- A new bucket is full. -/
theorem Counted.entry (h : Counted s) (config : RateLimitConfig) (client : String)
    (now : Instant) : BucketCounted (s.buckets.entry config client now) := by
  unfold Buckets.entry
  cases hb : s.buckets client with
  | none => exact ⟨config.burstCapacity, Nat.cast_nonneg _, rfl⟩
  | some bucket => exact h client bucket hb

/-- Every call keeps the tokens so. -/
theorem Counted.step (h : Counted s) (call : Acquire) : Counted (limiter.step s call) := by
  obtain ⟨clientId, config, now, later⟩ := call
  intro client bucket hb
  have hb : (tryAcquire s.buckets clientId config now later).2 client = some bucket := hb
  by_cases hclient : client = clientId
  · subst hclient
    cases hpass : admits s.buckets client config now later with
    | true =>
      rw [tryAcquire_of_admits hpass] at hb
      obtain ⟨q, hq, hrefilled⟩ := exists_refilled_of_one_le (admits_iff.mp hpass)
      obtain rfl := Option.some.inj hb
      refine ⟨q + -1, by linarith, ?_⟩
      rw [hrefilled]
      rfl
    | false =>
      rw [tryAcquire_of_not_admits hpass] at hb
      exact Option.some.inj hb ▸ h.entry config client now
  · rw [tryAcquire_other hclient] at hb
    exact h client bucket hb

theorem counted_run {t₀ : Instant} {tr : List (Lib.Step Limiter Acquire)}
    (hrun : Lib.Run limiter (.new t₀) tr s) : Counted s :=
  hrun.invariant (counted_new t₀) fun _ call _ h => h.step call

end Tokens

/-! ## The wait -/

/-- A rate from zero on, or one that is infinite or NaN, with a burst. -/
def Sound (config : RateLimitConfig) : Prop :=
  match config.refillRate with
  | .finite r => 0 ≤ r
  | .negInf => False
  | .posInf => 1 ≤ config.burstCapacity
  | .nan => 1 ≤ config.burstCapacity

section Wait

variable {config : RateLimitConfig} {bucket : BucketState} {later : Instant} {r q : ℚ}

theorem refilled_of_finite (hrate : config.refillRate = .finite r)
    (htokens : bucket.tokens = .finite q) :
    bucket.refilled config later = .finite (min config.burstCapacity
      (q + ((later - bucket.lastRefill : ℕ) : ℚ) / 10 ^ 9 * r)) := by
  rw [BucketState.refilled, htokens, hrate]
  rfl

theorem refilled_of_nan (hrate : config.refillRate = .nan) (bucket : BucketState)
    (later : Instant) : bucket.refilled config later = F64.ofNat config.burstCapacity := by
  rw [BucketState.refilled, hrate]
  cases bucket.tokens <;> rfl

/-- A finite refill below one token is rejected, with the rounded wait. -/
theorem answerOf_of_lt (hq : q < 1) :
    answerOf config (.finite q) =
      .error (((F64.finite (1 - q)).div config.refillRate).ceil.toNat) := by
  rw [answerOf, if_neg (by simpa [F64.le] using hq), sub_eq_add_neg]
  rfl

/-- With a sound rate a rejection has a wait. -/
theorem Sound.answer_ne_zero (h : Sound config) (hbucket : BucketCounted bucket) :
    answerOf config (bucket.refilled config later) ≠ .error 0 := by
  obtain ⟨q, hq, htokens⟩ := hbucket
  unfold Sound at h
  cases hrate : config.refillRate with
  | nan =>
    rw [hrate] at h
    rw [refilled_of_nan hrate]
    exact answerOf_full h 0
  | posInf =>
    rw [hrate] at h
    rw [refilled_of_posInf hrate]
    exact answerOf_full h 0
  | negInf =>
    rw [hrate] at h
    exact h.elim
  | finite r =>
    rw [hrate] at h
    have hr : 0 ≤ r := h
    rw [refilled_of_finite hrate htokens]
    generalize min (config.burstCapacity : ℚ) _ = x
    rcases lt_or_ge x 1 with hx | hx
    · rw [answerOf_of_lt hx, hrate, F64.div]
      split_ifs with hzero
      · -- at a rate of zero the wait is infinite
        rw [F64.infOfSign, if_neg (by linarith), if_pos (by linarith)]
        decide
      · have hpos : 0 < (1 - x) / r := div_pos (by linarith) (lt_of_le_of_ne hr (Ne.symm hzero))
        have hceil : 1 ≤ ⌈(1 - x) / r⌉ := Int.one_le_ceil_iff.mpr hpos
        show Except.error ⌊((⌈(1 - x) / r⌉ : ℤ) : ℚ)⌋.toNat ≠ _
        rw [Int.floor_intCast, Ne, Except.error.injEq]
        omega
    · rw [answerOf, if_pos (by simpa [F64.le] using hx)]
      intro herror
      cases herror

end Wait

/-! ## Without a wait -/

section ZeroWait

variable {config : RateLimitConfig} {bucket : BucketState} {r q : ℚ}

/-- With a negative rate the wait is negative, which the cast makes zero. -/
theorem answerOf_of_neg (hrate : config.refillRate = .finite r) (hr : r < 0) (hq : q < 1) :
    answerOf config (.finite q) = .error 0 := by
  have hceil : ⌈(1 - q) / r⌉ ≤ 0 :=
    Int.ceil_le.mpr (by simpa using (div_neg_of_pos_of_neg (by linarith) hr).le)
  rw [answerOf_of_lt hq, hrate, F64.div, if_neg hr.ne]
  show Except.error ⌊((⌈(1 - q) / r⌉ : ℤ) : ℚ)⌋.toNat = _
  rw [Int.floor_intCast, Int.toNat_of_nonpos hceil]

/-- Without a burst, and with an infinite rate or NaN, nothing is left to wait for. -/
theorem answerOf_empty (hburst : config.burstCapacity = 0)
    (hrate : config.refillRate = .posInf ∨ config.refillRate = .nan) :
    answerOf config (F64.ofNat config.burstCapacity) = .error 0 := by
  have hzero : F64.ofNat config.burstCapacity = .finite 0 := by
    rw [hburst]
    rfl
  rw [hzero, answerOf_of_lt one_pos]
  rcases hrate with hrate | hrate
  · rw [hrate]
    rfl
  · rw [hrate]
    rfl

/-- The first call of a client stores a bucket. -/
theorem exists_bucket_first (client : String) (config : RateLimitConfig) :
    ∃ bucket, (limiter.step (.new 0) ⟨client, config, 0, 0⟩).buckets client = some bucket ∧
      bucket.lastRefill = 0 ∧ BucketCounted bucket := by
  have hcounted := (counted_new 0).step ⟨client, config, 0, 0⟩
  cases hpass : admits (Limiter.new 0).buckets client config 0 0 with
  | true =>
    have hb := tryAcquire_of_admits hpass
    exact ⟨_, hb, rfl, hcounted client _ hb⟩
  | false =>
    have hb := tryAcquire_of_not_admits hpass
    exact ⟨_, hb, rfl, hcounted client _ hb⟩

/-- Some time after the bucket was stored, a negative rate has emptied it. -/
theorem exists_empty_refill (hrate : config.refillRate = .finite r) (hr : r < 0)
    (hstamp : bucket.lastRefill = 0) (hbucket : BucketCounted bucket) :
    ∃ t q, q < 1 ∧ bucket.refilled config t = .finite q := by
  obtain ⟨q, hq, htokens⟩ := hbucket
  obtain ⟨n, hn⟩ := exists_nat_ge (q / -r)
  have hdrain : q + n * r ≤ 0 := by
    rw [div_le_iff₀ (by linarith)] at hn
    linarith
  refine ⟨Duration.fromSecs n, _, lt_of_le_of_lt (min_le_right _ _) ?_,
    refilled_of_finite hrate htokens⟩
  have hseconds : ((Duration.fromSecs n - bucket.lastRefill : ℕ) : ℚ) / 10 ^ 9 = n := by
    rw [hstamp, Nat.sub_zero, Duration.fromSecs]
    push_cast
    ring
  rw [hseconds]
  linarith

/-- An infinite negative rate has done so a second later, and the wait is divided by it. -/
theorem answerOf_of_negInf (hrate : config.refillRate = .negInf)
    (hstamp : bucket.lastRefill = 0) (hbucket : BucketCounted bucket) :
    answerOf config (bucket.refilled config (Duration.fromSecs 1)) = .error 0 := by
  obtain ⟨q, -, htokens⟩ := hbucket
  have hflow : (Duration.asSecsF64 (Duration.fromSecs 1 - 0)).mul .negInf = .negInf := by
    decide +kernel
  have hrefilled : bucket.refilled config (Duration.fromSecs 1) = .negInf := by
    rw [BucketState.refilled, htokens, hrate, hstamp, hflow]
    rfl
  rw [hrefilled, answerOf, hrate]
  rfl

/-- With an unsound rate, a stored bucket comes to give such an answer. -/
theorem exists_answer_zero (h : ¬ Sound config) (hstamp : bucket.lastRefill = 0)
    (hbucket : BucketCounted bucket) :
    ∃ now, answerOf config (bucket.refilled config now) = .error 0 := by
  unfold Sound at h
  cases hrate : config.refillRate with
  | nan =>
    rw [hrate] at h
    refine ⟨0, ?_⟩
    rw [refilled_of_nan hrate]
    exact answerOf_empty (Nat.lt_one_iff.mp (not_le.mp h)) (.inr hrate)
  | posInf =>
    rw [hrate] at h
    refine ⟨0, ?_⟩
    rw [refilled_of_posInf hrate]
    exact answerOf_empty (Nat.lt_one_iff.mp (not_le.mp h)) (.inl hrate)
  | negInf => exact ⟨_, answerOf_of_negInf hrate hstamp hbucket⟩
  | finite r =>
    rw [hrate] at h
    obtain ⟨t, q, hq, hrefilled⟩ := exists_empty_refill hrate (not_le.mp h) hstamp hbucket
    refine ⟨t, ?_⟩
    rw [hrefilled]
    exact answerOf_of_neg hrate (not_le.mp h) hq

/-- With an unsound rate, a client can be rejected without a wait by its first or second
    call. -/
theorem exists_zero_wait (h : ¬ Sound config) (client : String) :
    ∃ tr s now, Lib.Run limiter (.new 0) tr s ∧
      (∀ x ∈ tr, x.event.clientId = client ∧ x.event.config = config) ∧ s.clock ≤ now ∧
      (tryAcquire s.buckets client config now now).1 = .error 0 := by
  obtain ⟨bucket, hb, hstamp, hbucket⟩ := exists_bucket_first client config
  obtain ⟨now, hanswer⟩ := exists_answer_zero h hstamp hbucket
  let s := limiter.step (.new 0) ⟨client, config, 0, 0⟩
  have hrun : Lib.Run limiter (.new 0) _ s := .snoc .nil ⟨Nat.le_refl 0, Nat.le_refl 0⟩
  have hentry : s.buckets.entry config client now = bucket := by
    rw [Buckets.entry, hb, Option.getD_some]
  refine ⟨_, s, now, hrun, by simp, Nat.zero_le _, ?_⟩
  rw [tryAcquire_answer, hentry]
  exact hanswer

end ZeroWait

/-! ## The clients -/

/-- The gateway's own rate is sound. -/
theorem sound_gatewayRateLimit {display : F64 → String} {c : LoadedConfig}
    (hvalid : c.validate display = .ok ()) : Sound (gatewayRateLimit c) := by
  obtain ⟨-, -, -, -, hrate, -, -⟩ := LoadedConfig.validate_eq_ok_iff.mp hvalid
  obtain ⟨hburst, hpos⟩ := rateLimitErrors_eq_nil_iff.mp hrate
  have hburst : 1 ≤ c.rateLimit.burstCapacity := Nat.one_le_iff_ne_zero.mpr hburst
  unfold Sound
  show match c.rateLimit.refillRate with
    | .finite r => 0 ≤ r
    | .negInf => False
    | .posInf => 1 ≤ c.rateLimit.burstCapacity
    | .nan => 1 ≤ c.rateLimit.burstCapacity
  cases hr : c.rateLimit.refillRate with
  | nan => exact hburst
  | posInf => exact hburst
  | negInf =>
    rw [hr] at hpos
    cases hpos
  | finite r =>
    rw [hr] at hpos
    have : 0 < r := by simpa [F64.le] using hpos
    exact this.le

/-- A client's rate is sound exactly if its override is, or if it has none. -/
theorem sound_rateLimitOf_iff {display : F64 → String} {c : LoadedConfig} {entry : ApiKeyEntry}
    (hvalid : c.validate display = .ok ()) :
    Sound (rateLimitOf c entry) ↔
      ∀ clientRl, entry.rateLimit = some clientRl →
        Sound ⟨clientRl.burstCapacity, clientRl.refillRate⟩ := by
  unfold rateLimitOf effectiveRateLimit identityOf
  cases hrl : entry.rateLimit with
  | none => simpa using sound_gatewayRateLimit hvalid
  | some clientRl => simp

/-- **Enforcement.** In an accepted configuration, all rejected requests of a client are
    answered with 429 exactly if it has no override of the rate limit, or one whose rate is
    zero or more, or infinite or NaN with a burst. -/
theorem enforced_iff {display : F64 → String} {c : LoadedConfig} {entry : ApiKeyEntry}
    (hvalid : c.validate display = .ok ()) (hentry : entry ∈ c.auth.apiKeys) :
    Enforced c entry ↔
      ∀ clientRl, entry.rateLimit = some clientRl →
        Sound ⟨clientRl.burstCapacity, clientRl.refillRate⟩ := by
  rw [← sound_rateLimitOf_iff hvalid]
  constructor
  · intro h
    by_contra hunsound
    obtain ⟨tr, s, now, hrun, hcalls, hnow, hanswer⟩ := exists_zero_wait hunsound entry.clientId
    have hclients : ∀ x ∈ tr, ClientCall c x.event := fun x hx => ⟨entry, hentry, hcalls x hx⟩
    exact rateLimitMiddleware_error_iff.mp
      (h 0 tr s hrun hclients now now 0 hnow (Nat.le_refl _) hanswer) rfl
  · intro h t₀ tr s hrun _ now later secs _ _ hanswer
    rw [rateLimitMiddleware_error_iff]
    rintro rfl
    rw [tryAcquire_answer] at hanswer
    exact h.answer_ne_zero ((counted_run hrun).entry _ _ _) hanswer

/-! ## Two clients -/

/-- One client, with or without an override of the rate limit. -/
def oneClient (rateLimit : Option ClientRateLimit) : LoadedConfig where
  redis := { clusterUrls := ["redis://localhost:6379"] }
  auth :=
    { apiKeys := [{ key := "sk-a", clientId := "a", rateLimit := rateLimit }]
      enabled := true }

/-- Without an override every rejection is answered with 429. -/
theorem enforced_iff_default :
    Enforced (oneClient none) { key := "sk-a", clientId := "a", rateLimit := none } := by
  have hvalid : (oneClient none).validate (fun _ => "") = .ok () := by decide +kernel
  refine (enforced_iff hvalid List.mem_cons_self).mpr fun clientRl hrl => ?_
  cases hrl

/-- An override of one token and a rate of `-1` is accepted. The client's second call, a
    second after the first, is rejected with no time to wait, and let through. -/
theorem negative_override :
    let c := oneClient (some ⟨1, .finite (-1)⟩)
    let second := Duration.fromSecs 1
    let s := limiter.step (.new 0) ⟨"a", ⟨1, .finite (-1)⟩, 0, 0⟩
    c.validate (fun _ => "") = .ok () ∧
      (tryAcquire s.buckets "a" ⟨1, .finite (-1)⟩ second second).1 = .error 0 ∧
      rateLimitMiddleware (.error 0) = .ok none ∧ ∃ entry ∈ c.auth.apiKeys, ¬ Enforced c entry := by
  intro c second s
  have hanswer : (tryAcquire s.buckets "a" ⟨1, .finite (-1)⟩ second second).1 = .error 0 := by
    decide +kernel
  refine ⟨by decide +kernel, hanswer, rfl, _, List.mem_singleton_self _, fun h => ?_⟩
  have hrun : Lib.Run limiter (.new 0) _ s := .snoc .nil ⟨Nat.le_refl 0, Nat.le_refl 0⟩
  have hcalls := h 0 _ s hrun (fun x hx => ?_) second second 0 (by decide) (Nat.le_refl _) hanswer
  · exact rateLimitMiddleware_error_iff.mp hcalls rfl
  · obtain rfl := List.mem_singleton.mp hx
    exact ⟨_, List.mem_singleton_self _, rfl, rfl⟩

end Melis.Middleware
