import Melis.RateLimiter.Redis

/-!
# The two rate limiters, call by call

The local limiter and the Redis limiter are given the same calls, each call reading one
clock. Redis forgets a client 3600 seconds after its last admitted call, and then takes
its bucket for a full one; the local limiter does not.

* `Synced`: both hold the same bucket for a client, as long as Redis remembers it.
* `Synced.agree_iff`, `Synced.step`: one call.
* `limiters_agree_iff`: the runs, and the configurations, on which they agree.
* `forgotten_bucket`: a call that is admitted by one of them only.
-/

namespace Melis.RateLimiter

open Lib

/-- A call on both limiters, at `nowMs` milliseconds. -/
structure PairedCall where
  clientId : String
  nowMs : ℕ

/-- Both limiters, and the time of the latest call. -/
structure Limiters where
  buckets : Buckets
  db : Db
  clockMs : ℕ

/-- New limiters. -/
def Limiters.new (clockMs : ℕ) : Limiters := ⟨.new, fun _ => none, clockMs⟩

/-- The bucket was stored more than 3600 seconds before `now`, and is not full at
    `now`. -/
def BucketState.Forgotten (config : RateLimitConfig) (bucket : BucketState) (now : Instant) :
    Prop :=
  bucket.lastRefill + Duration.fromSecs 3600 < now ∧
    (bucket.refilled config now).lt (F64.ofNat config.burstCapacity) = true

section Answers

variable (config : String → RateLimitConfig)

/-- The call on the local limiter. -/
def localCall (s : Limiters) (c : PairedCall) : Except ℕ ℕ × Buckets :=
  tryAcquire s.buckets c.clientId (config c.clientId) (millis c.nowMs) (millis c.nowMs)

/-- The call on the Redis limiter. -/
def redisCall (s : Limiters) (c : PairedCall) : Except ℕ ℕ × Db :=
  redisTryAcquire s.db c.clientId (config c.clientId) c.nowMs

/-- The refilled bucket of the local call. -/
def localRefilled (s : Limiters) (c : PairedCall) : F64 :=
  (s.buckets.entry (config c.clientId) c.clientId (millis c.nowMs)).refilled
    (config c.clientId) (millis c.nowMs)

/-- The refilled bucket of the Redis call. -/
def redisRefilled (s : Limiters) (c : PairedCall) : F64 :=
  scriptRefilled s.db c.nowMs (bucketKey c.clientId)
    (F64.ofNat (config c.clientId).burstCapacity) (config c.clientId).refillRate
    (F64.ofNat c.nowMs)

/-- The same calls on both limiters, at times that do not decrease. Each client has its
    configuration. -/
def limiters : System Limiters PairedCall where
  enabled s c := s.clockMs ≤ c.nowMs
  step s c := ⟨(localCall config s c).2, (redisCall config s c).2, c.nowMs⟩

/-- Both admit the call with the same remaining count, or reject it with the same wait. -/
def Agree (x : Step Limiters PairedCall) : Prop :=
  (localCall config x.pre x.event).1 = (redisCall config x.pre x.event).1

/-- The call comes more than 3600 seconds after the client's last admitted call, and
    before its bucket is full again. -/
def Late (x : Step Limiters PairedCall) : Prop :=
  ∃ bucket, x.pre.buckets x.event.clientId = some bucket ∧
    bucket.Forgotten (config x.event.clientId) (millis x.event.nowMs)

end Answers

/-- A bucket fills up from empty within the 3600 seconds that Redis remembers it, and
    the millisecond after which it is gone. -/
def FillsInTime (config : RateLimitConfig) : Prop :=
  (F64.ofNat config.burstCapacity).le
    ((F64.finite (3600001 / 1000)).mul config.refillRate) = true

/-! ## One call -/

/-- `fields t` are the fields of a local bucket in Redis at time `t`, until 3600 seconds
    after it was stored. -/
def Mirrors (clockMs : ℕ) (fields : ℕ → String → Option F64) : Option BucketState → Prop
  | none => ∀ t field, fields t field = none
  | some bucket => ∃ q lastMs, bucket = ⟨.finite q, millis lastMs⟩ ∧ 0 ≤ q ∧ lastMs ≤ clockMs ∧
      ∀ t, (fields t "tokens" = if t ≤ lastMs + 3600 * 1000 then some (.finite q) else none) ∧
        fields t "last_refill" =
          if t ≤ lastMs + 3600 * 1000 then some (F64.ofNat lastMs) else none

/-- Both limiters hold the same bucket for `client`. -/
def Synced (s : Limiters) (client : String) : Prop :=
  Mirrors s.clockMs (fun t => s.db.hget t (bucketKey client)) (s.buckets client)

theorem synced_new (clockMs : ℕ) (client : String) : Synced (.new clockMs) client :=
  fun _ _ => rfl

theorem Mirrors.mono {clockMs clockMs' : ℕ} {fields : ℕ → String → Option F64}
    {bucket : Option BucketState} (h : Mirrors clockMs fields bucket) (hle : clockMs ≤ clockMs') :
    Mirrors clockMs' fields bucket := by
  cases bucket with
  | none => exact h
  | some bucket =>
    obtain ⟨q, lastMs, hbucket, hq, hlast, hfields⟩ := h
    exact ⟨q, lastMs, hbucket, hq, hlast.trans hle, hfields⟩

theorem millis_lt_iff {lastMs nowMs : ℕ} :
    millis lastMs + Duration.fromSecs 3600 < millis nowMs ↔ lastMs + 3600 * 1000 < nowMs := by
  have h : lastMs * 10 ^ 6 + 3600 * 10 ^ 9 < nowMs * 10 ^ 6 ↔ lastMs + 3600 * 1000 < nowMs := by
    omega
  exact h

section Call

variable {config : String → RateLimitConfig} {s : Limiters} {c : PairedCall} {client : String}

theorem localRefilled_of_some {bucket : BucketState} (h : s.buckets c.clientId = some bucket) :
    localRefilled config s c = bucket.refilled (config c.clientId) (millis c.nowMs) := by
  rw [localRefilled, Buckets.entry, h, Option.getD_some]

/-- A client without a bucket finds a full one. -/
theorem localRefilled_of_none (h : s.buckets c.clientId = none) :
    localRefilled config s c = F64.ofNat (config c.clientId).burstCapacity := by
  rw [localRefilled, Buckets.entry, h, Option.getD_none]
  exact refilled_full _ _

/-- A client that Redis does not know, or has forgotten, finds a full bucket. -/
theorem redisRefilled_of_missing
    (htokens : s.db.hget c.nowMs (bucketKey c.clientId) "tokens" = none)
    (hlast : s.db.hget c.nowMs (bucketKey c.clientId) "last_refill" = none) :
    redisRefilled config s c = F64.ofNat (config c.clientId).burstCapacity := by
  have hredis := scriptRefilled_eq (config c.clientId) (le_refl c.nowMs)
    (by rw [htokens, Option.getD_none]) (by rw [hlast, Option.getD_none])
  exact hredis.trans (refilled_full _ _)

theorem redisRefilled_of_stored {q : ℚ} {lastMs : ℕ} (hle : lastMs ≤ c.nowMs)
    (htokens : s.db.hget c.nowMs (bucketKey c.clientId) "tokens" = some (.finite q))
    (hlast : s.db.hget c.nowMs (bucketKey c.clientId) "last_refill" = some (F64.ofNat lastMs)) :
    redisRefilled config s c =
      (⟨.finite q, millis lastMs⟩ : BucketState).refilled (config c.clientId) (millis c.nowMs) :=
  scriptRefilled_eq (config c.clientId) hle (by rw [htokens, Option.getD_some])
    (by rw [hlast, Option.getD_some])

/-- The local limiter refills to `p`, and Redis to `p'`: the same, except that Redis takes
    a late call to find a full bucket. -/
structure Refills (config : RateLimitConfig) (late : Prop) (p p' : ℚ) : Prop where
  le : p ≤ config.burstCapacity
  of_late : late → p < config.burstCapacity ∧ p' = config.burstCapacity
  of_not_late : ¬ late → p' = p

theorem late_iff {bucket : BucketState} (h : s.buckets c.clientId = some bucket)
    (post : Limiters) : Late config ⟨s, c, post⟩ ↔
      bucket.Forgotten (config c.clientId) (millis c.nowMs) := by
  constructor
  · rintro ⟨bucket', hbucket, hforgotten⟩
    obtain rfl := Option.some.inj (h.symm.trans hbucket)
    exact hforgotten
  · exact fun hforgotten => ⟨bucket, h, hforgotten⟩

theorem forgotten_iff {config : RateLimitConfig} {q p : ℚ} {lastMs nowMs : ℕ}
    (h : (⟨.finite q, millis lastMs⟩ : BucketState).refilled config (millis nowMs) = .finite p) :
    (⟨.finite q, millis lastMs⟩ : BucketState).Forgotten config (millis nowMs) ↔
      lastMs + 3600 * 1000 < nowMs ∧ p < config.burstCapacity := by
  rw [BucketState.Forgotten, millis_lt_iff, h]
  simp [F64.lt, F64.ofNat]

/-- The bucket that each of them refills to. -/
theorem Synced.refills (h : Synced s c.clientId) (hconfig : (config c.clientId).Positive)
    (hnow : s.clockMs ≤ c.nowMs) (post : Limiters) :
    ∃ p p' : ℚ, localRefilled config s c = .finite p ∧ redisRefilled config s c = .finite p' ∧
      Refills (config c.clientId) (Late config ⟨s, c, post⟩) p p' := by
  unfold Synced at h
  cases hb : s.buckets c.clientId with
  | none =>
    rw [hb] at h
    refine ⟨_, _, localRefilled_of_none hb,
      redisRefilled_of_missing (h c.nowMs "tokens") (h c.nowMs "last_refill"), le_rfl, ?_,
      fun _ => rfl⟩
    rintro ⟨bucket, hbucket, -⟩
    cases hb.symm.trans hbucket
  | some bucket =>
    rw [hb] at h
    obtain ⟨q, lastMs, rfl, hq, hlast, hfields⟩ := h
    obtain ⟨p, hp, hle⟩ := hconfig.exists_refilled q (millis lastMs) (millis c.nowMs)
    obtain ⟨htokens, hlastRefill⟩ := hfields c.nowMs
    rw [late_iff hb, forgotten_iff hp]
    by_cases hold : c.nowMs ≤ lastMs + 3600 * 1000
    · rw [if_pos hold] at htokens hlastRefill
      refine ⟨p, p, (localRefilled_of_some hb).trans hp,
        (redisRefilled_of_stored (hlast.trans hnow) htokens hlastRefill).trans hp, hle, ?_,
        fun _ => rfl⟩
      exact fun hlate => absurd hlate.1 (not_lt.mpr hold)
    · rw [if_neg hold] at htokens hlastRefill
      refine ⟨p, _, (localRefilled_of_some hb).trans hp,
        redisRefilled_of_missing htokens hlastRefill, hle, fun hlate => ⟨hlate.2, rfl⟩,
        fun hnot => ?_⟩
      -- a call that finds the bucket full is not late
      by_contra hne
      exact hnot ⟨not_le.mp hold, lt_of_le_of_ne hle (Ne.symm hne)⟩

/-- A bucket that is not full gets another answer than a full one. -/
theorem answerOf_ne_full {config : RateLimitConfig} (h : config.Positive) {p : ℚ}
    (hp : p < config.burstCapacity) :
    answerOf config (.finite p) ≠ answerOf config (F64.ofNat config.burstCapacity) := by
  have hburst : (1 : ℚ) ≤ config.burstCapacity := by exact_mod_cast h.burst
  have hfull : answerOf config (F64.ofNat config.burstCapacity) =
      .ok (config.burstCapacity - 1) := by
    rw [answerOf, if_pos (by simpa [F64.le, F64.ofNat] using hburst)]
    simp [F64.toNat, F64.ofNat]
  rw [hfull, answerOf]
  split_ifs with hone
  · have hp1 : 1 ≤ p := by simpa [F64.le] using hone
    have hfloor : ⌊p⌋ < config.burstCapacity := Int.floor_lt.mpr (by exact_mod_cast hp)
    have hpos : 1 ≤ ⌊p⌋ := Int.le_floor.mpr (by simpa using hp1)
    intro heq
    have hcount : ⌊p⌋.toNat - 1 = config.burstCapacity - 1 := Except.ok.inj heq
    omega
  · intro heq
    cases heq

/-- The limiters agree on a call exactly if it is not late. -/
theorem Synced.agree_iff (h : Synced s c.clientId) (hconfig : (config c.clientId).Positive)
    (hnow : s.clockMs ≤ c.nowMs) (post : Limiters) :
    Agree config ⟨s, c, post⟩ ↔ ¬ Late config ⟨s, c, post⟩ := by
  obtain ⟨p, p', hp, hp', hrefills⟩ := h.refills hconfig hnow post
  have hanswers : Agree config ⟨s, c, post⟩ ↔
      answerOf (config c.clientId) (.finite p) = answerOf (config c.clientId) (.finite p') := by
    unfold Agree localCall redisCall
    rw [tryAcquire_answer, redisTryAcquire_answer hconfig hp', ← hp]
    rfl
  rw [hanswers]
  constructor
  · intro heq hl
    obtain ⟨hlt, rfl⟩ := hrefills.of_late hl
    exact answerOf_ne_full hconfig hlt heq
  · intro hl
    rw [hrefills.of_not_late hl]

/-- What the client's own call leaves, if it is not late. -/
theorem Synced.own (h : Synced s c.clientId) (hconfig : (config c.clientId).Positive)
    (hnow : s.clockMs ≤ c.nowMs) (post : Limiters) (hlate : ¬ Late config ⟨s, c, post⟩) :
    Synced ((limiters config).step s c) c.clientId := by
  obtain ⟨p, p', hp, hp', hrefills⟩ := h.refills hconfig hnow post
  obtain rfl := hrefills.of_not_late hlate
  show Mirrors c.nowMs (fun t => (redisCall config s c).2.hget t (bucketKey c.clientId))
    ((localCall config s c).2 c.clientId)
  by_cases hone : (F64.finite 1).le (localRefilled config s c) = true
  · have hp1 : 1 ≤ p' := by simpa [hp, F64.le] using hone
    rw [localCall, tryAcquire_of_admits (admits_iff.mpr hone)]
    refine ⟨p' + -1, c.nowMs, ?_, by linarith, le_rfl, fun t => ?_⟩
    · rw [show BucketState.refilled _ _ _ = _ from hp]
      rfl
    · exact hget_redisTryAcquire_of_admitted hp' (hp ▸ hone) t
  · have hrejected : admits s.buckets c.clientId (config c.clientId) (millis c.nowMs)
        (millis c.nowMs) = false := Bool.eq_false_iff.mpr (mt admits_iff.mp hone)
    rw [localCall, redisCall, tryAcquire_of_not_admits hrejected,
      redisTryAcquire_of_rejected hp' (Bool.eq_false_iff.mpr (hp ▸ hone)), Buckets.entry]
    have hsame := h.mono hnow
    cases hb : s.buckets c.clientId with
    | some bucket =>
      rw [hb] at hsame
      exact hsame
    | none =>
      rw [localRefilled_of_none hb] at hone
      exact absurd (by simpa [F64.le, F64.ofNat] using hconfig.burst) hone

/-- What another client's call leaves. -/
theorem Synced.other (h : Synced s client) (hnow : s.clockMs ≤ c.nowMs)
    (hclient : client ≠ c.clientId) : Synced ((limiters config).step s c) client := by
  show Mirrors c.nowMs (fun t => (redisCall config s c).2.hget t (bucketKey client))
    ((localCall config s c).2 client)
  have hredis : (fun t => (redisCall config s c).2.hget t (bucketKey client)) =
      fun t => s.db.hget t (bucketKey client) :=
    funext fun t => funext fun field => hget_redisTryAcquire_other hclient t field
  rw [hredis, localCall, tryAcquire_other hclient]
  exact h.mono hnow

/-- A call that is not late leaves both with the same buckets. -/
theorem Synced.step (h : ∀ client, Synced s client) (hconfig : (config c.clientId).Positive)
    (hnow : s.clockMs ≤ c.nowMs) (post : Limiters) (hlate : ¬ Late config ⟨s, c, post⟩) :
    ∀ client, Synced ((limiters config).step s c) client := by
  intro client
  by_cases hclient : client = c.clientId
  · subst hclient
    exact (h _).own hconfig hnow post hlate
  · exact (h client).other hnow hclient

end Call

/-! ## Runs -/

section Runs

variable {config : String → RateLimitConfig} {s : Limiters} {clockMs : ℕ}
  {tr : List (Step Limiters PairedCall)}

/-- As long as no call is late, both hold the same buckets. -/
theorem synced_run (hconfig : ∀ client, (config client).Positive)
    (hrun : Run (limiters config) (.new clockMs) tr s) (h : ∀ x ∈ tr, ¬ Late config x) :
    ∀ client, Synced s client := by
  induction hrun with
  | nil => exact synced_new clockMs
  | @snoc tr s c hrun hnow ih =>
    exact Synced.step (ih fun x hx => h x (List.mem_append_left _ hx)) (hconfig _) hnow _
      (h _ (List.mem_append_right _ List.mem_cons_self))

/-- The limiters agree on a run exactly if no call is late. -/
theorem agree_run_iff (hconfig : ∀ client, (config client).Positive)
    (hrun : Run (limiters config) (.new clockMs) tr s) :
    (∀ x ∈ tr, Agree config x) ↔ ∀ x ∈ tr, ¬ Late config x := by
  induction hrun with
  | nil => simp
  | @snoc tr s c hrun hnow ih =>
    rw [List.forall_mem_append, List.forall_mem_append, ih, List.forall_mem_singleton,
      List.forall_mem_singleton]
    refine and_congr_right fun h => ?_
    exact (synced_run hconfig hrun h _).agree_iff (hconfig _) hnow _

end Runs

/-! ## Configurations -/

section Configurations

variable {config : RateLimitConfig} {r q : ℚ} {lastMs nowMs : ℕ}

/-- `refilled` for a finite rate, in milliseconds. -/
theorem refilled_finite (hrate : config.refillRate = .finite r) (hle : lastMs ≤ nowMs) :
    (⟨.finite q, millis lastMs⟩ : BucketState).refilled config (millis nowMs) =
      .finite (min config.burstCapacity (q + (nowMs - lastMs) / 1000 * r)) := by
  unfold BucketState.refilled
  rw [hrate, ← elapsed_eq hle]
  simp [F64.ofNat, F64.sub, F64.neg, F64.add, F64.div, F64.mul, F64.min, sub_eq_add_neg]

theorem fillsInTime_finite_iff (hrate : config.refillRate = .finite r) :
    FillsInTime config ↔ (config.burstCapacity : ℚ) ≤ 3600001 / 1000 * r := by
  unfold FillsInTime
  rw [hrate]
  simp [F64.ofNat, F64.mul, F64.le]

/-- A bucket that fills in time is full once Redis has forgotten it. -/
theorem FillsInTime.not_forgotten (h : FillsInTime config) (hconfig : config.Positive)
    (hq : 0 ≤ q) :
    ¬ (⟨.finite q, millis lastMs⟩ : BucketState).Forgotten config (millis nowMs) := by
  rintro ⟨hold, hlt⟩
  rcases hconfig.rate_cases with hr | ⟨r, hr', hr⟩
  · rw [refilled_infinite hr] at hlt
    simp [F64.lt, F64.ofNat] at hlt
  · have hms : lastMs + 3600 * 1000 < nowMs := millis_lt_iff.mp hold
    have hburst := (fillsInTime_finite_iff hr).mp h
    rw [refilled_finite hr (by omega)] at hlt
    have hshort : q + ((nowMs : ℚ) - lastMs) / 1000 * r < config.burstCapacity := by
      simpa [F64.lt, F64.ofNat] using hlt
    have helapsed : (3600001 : ℚ) ≤ nowMs - lastMs := by
      have : (lastMs : ℚ) + 3600001 ≤ nowMs := by exact_mod_cast hms
      linarith
    have hflow : (3600001 : ℚ) / 1000 * r ≤ (nowMs - lastMs) / 1000 * r := by
      gcongr
    linarith

theorem fillsInTime_infinite (hrate : config.refillRate = .posInf) : FillsInTime config := by
  rw [FillsInTime, hrate]
  show F64.le _ (F64.infOfSign _) = true
  rw [F64.infOfSign, if_neg (by norm_num), if_pos (by norm_num)]
  rfl

/-- If an empty bucket is full once Redis has forgotten it, it fills in time. -/
theorem fillsInTime_of_not_forgotten (hrate : config.refillRate = .finite r)
    (h : ¬ (⟨.finite 0, millis 0⟩ : BucketState).Forgotten config (millis 3600001)) :
    FillsInTime config := by
  rw [fillsInTime_finite_iff hrate]
  by_contra hshort
  refine h ⟨millis_lt_iff.mpr (by decide), ?_⟩
  rw [refilled_finite hrate (Nat.zero_le _)]
  have hlt : (0 : ℚ) + (3600001 - 0) / 1000 * r < config.burstCapacity := by
    linarith
  simpa [F64.lt, F64.ofNat] using hlt

/-- At once nothing is refilled. -/
theorem refilled_at_once (hrate : config.refillRate = .finite r) (hq : q ≤ config.burstCapacity) :
    (⟨.finite q, millis nowMs⟩ : BucketState).refilled config (millis nowMs) = .finite q := by
  rw [refilled_finite hrate le_rfl, sub_self, zero_div, zero_mul, add_zero, min_eq_right hq]

end Configurations

/-- If every bucket fills in time, no call is late. -/
theorem not_late_run {config : String → RateLimitConfig} {s : Limiters} {clockMs : ℕ}
    {tr : List (Step Limiters PairedCall)} (hconfig : ∀ client, (config client).Positive)
    (hfills : ∀ client, FillsInTime (config client))
    (hrun : Run (limiters config) (.new clockMs) tr s) : ∀ x ∈ tr, ¬ Late config x := by
  induction hrun with
  | nil => simp
  | @snoc tr s c hrun hnow ih =>
    refine List.forall_mem_append.mpr ⟨ih, List.forall_mem_singleton.mpr ?_⟩
    rintro ⟨bucket, hbucket, hforgotten⟩
    have hsynced := synced_run hconfig hrun ih c.clientId
    unfold Synced at hsynced
    rw [show s.buckets c.clientId = _ from hbucket] at hsynced
    obtain ⟨q, lastMs, rfl, hq, -⟩ := hsynced
    exact (hfills c.clientId).not_forgotten (hconfig c.clientId) hq hforgotten

section Drained

variable {config : String → RateLimitConfig} {s : Limiters} {c : PairedCall} {r q : ℚ}

/-- An admitted call takes a token. -/
theorem bucket_admitted (hrefilled : localRefilled config s c = .finite q) (hq : 1 ≤ q) :
    ((limiters config).step s c).buckets c.clientId = some ⟨.finite (q - 1), millis c.nowMs⟩ := by
  have hone : (F64.finite 1).le (localRefilled config s c) = true := by
    rw [hrefilled]
    simpa [F64.le] using hq
  show (localCall config s c).2 c.clientId = _
  rw [localCall, tryAcquire_of_admits (admits_iff.mpr hone),
    show BucketState.refilled _ _ _ = _ from hrefilled, sub_eq_add_neg]
  rfl

/-- Calls one after another at time zero empty the bucket. -/
theorem exists_drained (config : String → RateLimitConfig) (client : String)
    (hrate : (config client).refillRate = .finite r) {k : ℕ}
    (hk : k < (config client).burstCapacity) :
    ∃ tr s, Run (limiters config) (.new 0) tr s ∧ s.clockMs = 0 ∧
      s.buckets client =
        some ⟨.finite ((config client).burstCapacity - k - 1), millis 0⟩ := by
  induction k with
  | zero =>
    have hnow : (limiters config).enabled (.new 0) ⟨client, 0⟩ := Nat.le_refl 0
    refine ⟨_, _, Run.snoc .nil hnow, rfl, ?_⟩
    have hburst : (1 : ℚ) ≤ (config client).burstCapacity := by exact_mod_cast hk
    have hrefilled : localRefilled config (.new 0) ⟨client, 0⟩ =
        F64.ofNat (config client).burstCapacity := localRefilled_of_none rfl
    rw [Nat.cast_zero, sub_zero]
    exact bucket_admitted hrefilled hburst
  | succ k ih =>
    obtain ⟨tr, s, hrun, hclock, hbucket⟩ := ih (Nat.lt_of_succ_lt hk)
    refine ⟨_, _, hrun.snoc (e := ⟨client, 0⟩) (Nat.le_of_eq hclock), rfl, ?_⟩
    have hleft : (1 : ℚ) ≤ (config client).burstCapacity - k - 1 := by
      have : ((k + 2 : ℕ) : ℚ) ≤ (config client).burstCapacity := by exact_mod_cast hk
      push_cast at this
      linarith
    have hrefilled : localRefilled config s ⟨client, 0⟩ =
        .finite ((config client).burstCapacity - k - 1) := by
      rw [localRefilled, Buckets.entry, hbucket, Option.getD_some]
      refine refilled_at_once hrate ?_
      have : (0 : ℚ) ≤ k := Nat.cast_nonneg _
      linarith
    have hcast : ((config client).burstCapacity : ℚ) - (k + 1 : ℕ) - 1 =
        (config client).burstCapacity - k - 1 - 1 := by
      push_cast
      ring
    rw [hcast]
    exact bucket_admitted hrefilled hleft

end Drained

/-- **Agreement.** In a run of calls by any clients, each with a burst of one or more and
    a positive rate, the two limiters give the same answers exactly if no call comes more
    than 3600 seconds after its client's last admitted call while the bucket is not full
    again. They do so in every run exactly if every client's bucket fills up in that
    time. -/
theorem limiters_agree_iff {config : String → RateLimitConfig}
    (hconfig : ∀ client, (config client).Positive) :
    (∀ clockMs tr s, Run (limiters config) (.new clockMs) tr s →
      ((∀ x ∈ tr, Agree config x) ↔ ∀ x ∈ tr, ¬ Late config x)) ∧
    ((∀ clockMs tr s, Run (limiters config) (.new clockMs) tr s → ∀ x ∈ tr, Agree config x) ↔
      ∀ client, FillsInTime (config client)) := by
  refine ⟨fun clockMs tr s hrun => agree_run_iff hconfig hrun, fun h client => ?_,
    fun h clockMs tr s hrun => (agree_run_iff hconfig hrun).mpr (not_late_run hconfig h hrun)⟩
  rcases (hconfig client).rate_cases with hr | ⟨r, -, hr⟩
  · exact fillsInTime_infinite hr
  · refine fillsInTime_of_not_forgotten hr fun hforgotten => ?_
    -- the burst is spent at once, and the next call comes when Redis has forgotten that
    have hburst := (hconfig client).burst
    obtain ⟨tr, s, hrun, hclock, hbucket⟩ := exists_drained config client hr
      (Nat.sub_lt hburst Nat.one_pos)
    rw [Nat.cast_sub hburst, Nat.cast_one, sub_sub_cancel, sub_self] at hbucket
    have hrun' := hrun.snoc (e := ⟨client, 3600001⟩) (hclock.trans_le (Nat.zero_le _))
    have hagree := (agree_run_iff hconfig hrun').mp (h _ _ _ hrun')
    exact hagree _ (List.mem_append_right _ List.mem_cons_self) ⟨_, hbucket, hforgotten⟩

/-! ## Example -/

/-- A burst of two, and one token per second. -/
def quick (_ : String) : RateLimitConfig := ⟨2, .finite 1⟩

/-- One token every two hours. -/
def slow (_ : String) : RateLimitConfig := ⟨1, .finite (1 / 7200)⟩

theorem quick_positive (client : String) : (quick client).Positive := ⟨by norm_num [quick], rfl⟩

theorem slow_positive (client : String) : (slow client).Positive :=
  ⟨by norm_num [slow], by simp [slow, F64.lt]⟩

/-- Two tokens are back after two seconds, long before Redis forgets. -/
theorem limiters_agree_iff_quick : (∀ client, FillsInTime (quick client)) ∧
    ∀ clockMs tr s, Run (limiters quick) (.new clockMs) tr s → ∀ x ∈ tr, Agree quick x := by
  have hfills : ∀ client, FillsInTime (quick client) := fun _ =>
    (fillsInTime_finite_iff rfl).mpr (by norm_num [quick])
  exact ⟨hfills, (limiters_agree_iff quick_positive).2.mpr hfills⟩

/-- The one token of a client, and a call an hour and a millisecond later. -/
def hourApart : List PairedCall := [⟨"a", 0⟩, ⟨"a", 3600001⟩]

theorem run_hourApart : Run (limiters slow) (.new 0) ((limiters slow).trace (.new 0) hourApart)
    (hourApart.foldl (limiters slow).step (.new 0)) := by
  refine run_trace _ _ _ ?_
  simp [hourApart, System.trace, limiters, Limiters.new]

/-- The second call has to wait an hour, or is admitted. -/
theorem forgotten_bucket :
    (∀ client, (slow client).Positive) ∧
    ((limiters slow).trace (.new 0) hourApart).map
        (fun x => ((localCall slow x.pre x.event).1, (redisCall slow x.pre x.event).1)) =
      [(.ok 0, .ok 0), (.error 3600, .ok 0)] ∧
    ¬ ∀ tr s, Run (limiters slow) (.new 0) tr s → ∀ x ∈ tr, Agree slow x := by
  have hanswers : ((limiters slow).trace (.new 0) hourApart).map
      (fun x => ((localCall slow x.pre x.event).1, (redisCall slow x.pre x.event).1)) =
        [(.ok 0, .ok 0), (.error 3600, .ok 0)] := by decide +kernel
  refine ⟨slow_positive, hanswers, fun h => ?_⟩
  have hmem : ((.error 3600, .ok 0) : Except ℕ ℕ × Except ℕ ℕ) ∈
      ((limiters slow).trace (.new 0) hourApart).map
        fun x => ((localCall slow x.pre x.event).1, (redisCall slow x.pre x.event).1) := by
    rw [hanswers]
    simp
  obtain ⟨x, hx, hpair⟩ := List.mem_map.mp hmem
  obtain ⟨hlocal, hredis⟩ := Prod.mk.inj hpair
  have hagree : (Except.error 3600 : Except ℕ ℕ) = .ok 0 :=
    hlocal.symm.trans ((h _ _ run_hourApart x hx).trans hredis)
  cases hagree

end Melis.RateLimiter
