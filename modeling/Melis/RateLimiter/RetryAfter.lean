import Melis.RateLimiter.Bound
import Melis.RateLimiter.Redis

/-!
# How long a rejected client has to wait

A rejected call is told the seconds until its bucket holds a token, rounded up. The
refill behind that number is not stored, and later calls compute it anew. `as u64` caps the
number at `2 ^ 64 - 1`, which is further than the clock reaches; the model does not cap it.

* `Refines.tryAcquire_error_iff`: when a call is rejected, and with which number.
* `Refines.unadmitted_run`: calls that are not admitted leave the bucket as it is.
* `retryAfter_sound_tight`: what the number says about later calls.
-/

namespace Melis.RateLimiter

section Wait

variable {config : RateLimitConfig} {r : ℚ} {client : String} {calls : List (Lib.Spend ℚ)}
  {s s' : Limiter} {b : Lib.Bucket ℚ} {now later : Instant} {w : ℕ}

/-- The answer to a rejected call, from the abstract bucket. -/
theorem Refines.tryAcquire_error_iff (h : Refines config r client calls s b)
    (hrate : config.refillRate = .finite r) (hr : 0 < r) (hnow : s.clock ≤ now)
    (hlater : now ≤ later) :
    (tryAcquire s.buckets client config now later).1 = .error w ↔
      b.at (config.burstCapacity : ℚ) r (seconds later) < 1 ∧
        w = ⌈(1 - b.at (config.burstCapacity : ℚ) r (seconds later)) / r⌉.toNat := by
  generalize hx : b.at (config.burstCapacity : ℚ) r (seconds later) = x
  have hrefilled := h.refilled hrate hr.le hnow hlater
  rw [hx] at hrefilled
  have hwait : ((F64.finite 1).sub (.finite x)).div config.refillRate =
      .finite ((1 - x) / r) := by
    rw [hrate, sub_eq_add_neg]
    exact if_neg hr.ne'
  have hceil : (F64.finite ((1 - x) / r)).ceil.toNat = ⌈(1 - x) / r⌉.toNat :=
    congrArg Int.toNat (Int.floor_intCast _)
  rw [tryAcquire_answer, hrefilled, answerOf, hwait, hceil, F64.le]
  by_cases hone : (1 : ℚ) ≤ x
  · rw [if_pos (decide_eq_true hone)]
    refine iff_of_false (fun hok => ?_) fun hlow => absurd hone (not_le.mpr hlow.1)
    cases hok
  · rw [if_neg (by simpa using hone), and_iff_right (not_le.mp hone), Except.error.injEq, eq_comm]

/-- Calls of the client that are not admitted, and calls of others, leave its bucket. -/
theorem Refines.unadmitted_run (h : Refines config r client calls s b)
    (hburst : 1 ≤ config.burstCapacity) (hrate : config.refillRate = .finite r) (hr : 0 ≤ r)
    {tr : List (Lib.Step Limiter Acquire)}
    (hconst : ∀ x ∈ tr, x.event.clientId = client → x.event.config = config)
    (hnone : RateLimiter.admitted client tr = []) (hrun : Lib.Run limiter s tr s') :
    Refines config r client calls s' b := by
  induction hrun with
  | nil => exact h
  | @snoc tr s' c hrun henabled ih =>
    rw [RateLimiter.admitted, List.filter_append, List.append_eq_nil_iff] at hnone
    have hlast : isAdmitted client ⟨s', c, limiter.step s' c⟩ = false := by
      simpa using List.filter_eq_nil_iff.mp hnone.2 _ (List.mem_singleton_self _)
    have h' := ih (fun x hx => hconst x (List.mem_append_left _ hx)) hnone.1
    by_cases hclient : c.clientId = client
    · have hconfig := hconst _ (List.mem_append_right _ List.mem_cons_self) hclient
      obtain ⟨clientId, config', now, later⟩ := c
      obtain rfl : clientId = client := hclient
      obtain rfl : config' = config := hconfig
      have hpass : admits s'.buckets clientId config' now later = false := by
        simpa [isAdmitted] using hlast
      exact h'.rejected hburst hrate hr henabled.1 henabled.2 hpass
    · exact h'.other henabled hclient

end Wait

section Rejected

variable {config : RateLimitConfig} {client : String} {s : Limiter} {t₀ now later : Instant}
  {w : ℕ} {tr : List (Lib.Step Limiter Acquire)}

theorem seconds_add_fromSecs (t : Instant) (w : ℕ) :
    seconds (t + Duration.fromSecs w) = seconds t + w := by
  rw [seconds, seconds, Duration.fromSecs]
  push_cast
  ring

/-- With an infinite rate every refilled bucket is full: the inflow is infinite, or NaN
    where no time has passed, which `f64::min` passes over. -/
theorem refilled_of_posInf (hrate : config.refillRate = .posInf) (bucket : BucketState)
    (later : Instant) : bucket.refilled config later = F64.ofNat config.burstCapacity := by
  have hflow : (Duration.asSecsF64 (later - bucket.lastRefill)).mul .posInf = .nan ∨
      (Duration.asSecsF64 (later - bucket.lastRefill)).mul .posInf = .posInf := by
    have hnonneg : (0 : ℚ) ≤ ((later - bucket.lastRefill : ℕ) : ℚ) / 10 ^ 9 := by positivity
    show F64.infOfSign _ = _ ∨ F64.infOfSign _ = _
    rw [F64.infOfSign]
    split_ifs with hzero hpos
    · exact .inl rfl
    · exact .inr rfl
    · exact absurd (lt_of_le_of_ne hnonneg (Ne.symm hzero)) hpos
  rw [BucketState.refilled, hrate]
  rcases hflow with hflow | hflow
  · rw [hflow]
    cases bucket.tokens <;> rfl
  · rw [hflow]
    cases bucket.tokens <;> rfl

/-- A full bucket with a burst does not reject. -/
theorem answerOf_full (hburst : 1 ≤ config.burstCapacity) (secs : ℕ) :
    answerOf config (F64.ofNat config.burstCapacity) ≠ .error secs := by
  rw [answerOf, if_pos]
  · exact nofun
  · simpa [F64.le, F64.ofNat] using hburst

/-- With an infinite rate no call is rejected. -/
theorem tryAcquire_of_posInf (hburst : 1 ≤ config.burstCapacity)
    (hrate : config.refillRate = .posInf) (buckets : Buckets) :
    (tryAcquire buckets client config now later).1 ≠ .error w := by
  rw [tryAcquire_answer, refilled_of_posInf hrate]
  exact answerOf_full hburst w

/-- **Retry-After.** In every run of calls by any clients, let a call of a client with a
    constant configuration be rejected, at the clock reading `later`, with `w` seconds to
    wait. Then `w` is at least one; and as long as the client is not admitted, a call of it
    `w` seconds later, or after that, is admitted, and one `w - 1` seconds later is not. -/
theorem retryAfter_sound_tight (hconfig : config.Positive)
    (hconst : ∀ x ∈ tr, x.event.clientId = client → x.event.config = config)
    (hrun : Lib.Run limiter (.new t₀) tr s) (hnow : s.clock ≤ now) (hlater : now ≤ later)
    (hreject : (tryAcquire s.buckets client config now later).1 = .error w) :
    1 ≤ w ∧ ∀ tr' s', Lib.Run limiter (limiter.step s ⟨client, config, now, later⟩) tr' s' →
      (∀ x ∈ tr', x.event.clientId = client → x.event.config = config) →
      admitted client tr' = [] →
      ∀ now' later', s'.clock ≤ now' → now' ≤ later' →
        (later + Duration.fromSecs w ≤ later' →
          admits s'.buckets client config now' later' = true) ∧
        (later' = later + Duration.fromSecs (w - 1) →
          admits s'.buckets client config now' later' = false) := by
  rcases hconfig.rate_cases with hrate | ⟨r, hr, hrate⟩
  · exact absurd hreject (tryAcquire_of_posInf hconfig.burst hrate s.buckets)
  have hburst : (1 : ℚ) ≤ config.burstCapacity := by exact_mod_cast hconfig.burst
  obtain ⟨b, h⟩ := refines_run hconfig.burst hrate hr.le hconst hrun
  obtain ⟨hlow, rfl⟩ := (h.tryAcquire_error_iff hrate hr hnow hlater).mp hreject
  -- the wait before it is rounded up
  generalize hx : (1 - b.at (config.burstCapacity : ℚ) r (seconds later)) / r = x at hreject ⊢
  have hpos : 0 < x := by
    rw [← hx]
    exact div_pos (sub_pos.mpr hlow) hr
  have hceil : 1 ≤ ⌈x⌉ := Int.one_le_ceil_iff.mpr hpos
  have hround : ((⌈x⌉.toNat : ℕ) : ℚ) = (⌈x⌉ : ℤ) := by
    exact_mod_cast Int.toNat_of_nonneg (by omega)
  refine ⟨by omega, fun tr' s' hrun' hconst' hnone now' later' hnow' hlater' => ?_⟩
  have hpass : admits s.buckets client config now later = false := by
    rw [admits, hreject]
    rfl
  have h' := (h.rejected hconfig.burst hrate hr.le hnow hlater hpass).unadmitted_run hconfig.burst
    hrate hr.le hconst' hnone hrun'
  have hadmits := h'.admits_iff hrate hr.le hnow' hlater'
  rw [Lib.Bucket.one_le_at_iff hr hburst hlow, hx] at hadmits
  constructor
  · intro hwait
    rw [hadmits]
    have hle : seconds later + ((⌈x⌉.toNat : ℕ) : ℚ) ≤ seconds later' := by
      rw [← seconds_add_fromSecs]
      exact seconds_le_iff.mpr hwait
    have := Int.le_ceil x
    linarith
  · rintro rfl
    rw [Bool.eq_false_iff, Ne, hadmits, seconds_add_fromSecs, not_le, Nat.cast_sub (by omega),
      hround]
    have := Int.ceil_lt_add_one x
    push_cast
    linarith

end Rejected

/-! ## One token in three seconds -/

/-- A second after its token was taken, a client is told to wait for two more: it is
    rejected after one of them and admitted after two. -/
theorem retryAfter_sound_tight_three :
    let config : RateLimitConfig := ⟨1, .finite (1 / 3)⟩
    let callAt (secs : ℕ) : Acquire :=
      ⟨"a", config, Duration.fromSecs secs, Duration.fromSecs secs⟩
    let s := limiter.step (.new 0) (callAt 0)
    let s' := limiter.step s (callAt 1)
    (tryAcquire s.buckets "a" config (callAt 1).now (callAt 1).later).1 = .error 2 ∧
      admits s'.buckets "a" config (callAt 2).now (callAt 2).later = false ∧
      admits s'.buckets "a" config (callAt 3).now (callAt 3).later = true := by
  intro config callAt s s'
  have hreject :
      (tryAcquire s.buckets "a" config (callAt 1).now (callAt 1).later).1 = .error 2 := by
    decide +kernel
  have hrun : Lib.Run limiter (.new 0) _ s := .snoc .nil ⟨Nat.le_refl _, Nat.le_refl _⟩
  obtain ⟨-, hlater⟩ := retryAfter_sound_tight ⟨by decide, by decide +kernel⟩
    (by simp [callAt]) hrun (Nat.zero_le _) (Nat.le_refl _) hreject
  have hnext := hlater [] s' .nil (by simp) rfl
  refine ⟨hreject, ?_, ?_⟩
  · exact (hnext (callAt 2).now (callAt 2).later (by decide) (Nat.le_refl _)).2 (by decide)
  · exact (hnext (callAt 3).now (callAt 3).later (by decide) (Nat.le_refl _)).1 (by decide)

end Melis.RateLimiter
