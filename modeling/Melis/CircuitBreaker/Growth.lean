import Melis.CircuitBreaker.Backoff

/-!
# Whether the backoff grows

A failed probe multiplies the backoff by `backoff_factor` and drops the fraction of a
second. A factor above one need not bring the product to the next whole second: the
backoff then stays where it is, and so for ever. The product is that of `f64`, rounded to
the nearest: half a unit of its last digit short of the next second suffices.

* `FirstStepGrows`: the first product reaches the next second.
* `lt_nextSecs`: then every later one does, up to `max_ttl_secs`.
* `DeadlinesFit`: the deadlines of a run are `Instant`s; elsewhere the code panics.
* `growsStrictly_iff`: the backoff grows in every such run exactly if the first product
  reaches the next second, or there is nowhere to grow.
* `not_forall_growsStrictly`: an accepted configuration whose backoff is stuck.
-/

namespace Melis.CircuitBreaker

/-- In the run `tr`, a failed probe reopens a circuit for longer than before, if it was
    not already open for `max_ttl_secs`. -/
def GrowsStrictly (config : CircuitBreakerConfig)
    (tr : List (Lib.Step Breaker Operation)) : Prop :=
  ∀ pre x mid y post p u d u' d', tr = pre ++ x :: (mid ++ y :: post) →
    Enters config p x u d → Enters config p y u' d' →
      (y.pre.provider config p).state = .halfOpen → (∀ z ∈ mid, ¬ Closes config p z) →
        d < Duration.fromSecs config.maxTtlSecs → d < d'

/-- The `f64` product `open_ttl_secs * backoff_factor` is at least a second more than
    `open_ttl_secs`. -/
def FirstStepGrows (config : CircuitBreakerConfig) : Prop :=
  (F64.ofNat (config.openTtlSecs + 1)).le
    (F64.Rounding.nearest.mul (F64.Rounding.nearest.cast config.openTtlSecs)
      config.backoffFactor) = true

/-- No deadline of the run lies beyond the last `Instant`, where `now + ttl` panics. -/
def DeadlinesFit (config : CircuitBreakerConfig)
    (tr : List (Lib.Step Breaker Operation)) : Prop :=
  ∀ x ∈ tr, ∀ p u d, Enters config p x u d → u ≤ Instant.last

/-! ## Seconds -/

section Seconds

variable {config : CircuitBreakerConfig} {secs : ℕ}

/-- The configuration is accepted and its factor is an `f64` above one. -/
theorem growing_of_accepted {display : F64 → String}
    (haccepted : circuitBreakerErrors display config = [])
    (hfactor : (F64.finite 1).lt config.backoffFactor = true)
    (hf64 : config.backoffFactor.Representable) (hu64 : config.maxTtlSecs ≤ u64Max) :
    Growing config := by
  obtain ⟨-, -, -, hopen, hmax, hle⟩ := circuitBreakerErrors_eq_nil_iff.mp haccepted
  have hpos : 0 < config.openTtlSecs := Nat.pos_of_ne_zero hopen
  have hnan : config.backoffFactor ≠ .nan := by
    intro hnan
    rw [hnan] at hfactor
    cases hfactor
  refine ⟨hpos, hmax, hle, hnan, ?_, hu64⟩
  rw [le_nextSecs_iff hle hf64 hpos (hmax.trans hu64)]
  refine ⟨hnan, fun hone => ?_⟩
  rw [hone] at hfactor
  exact absurd hfactor (by decide +kernel)

/-- Below `u64::MAX`, the first product reaches the next second exactly if the truncated
    one is longer. -/
theorem firstStepGrows_iff (hg : Growing config) (hlt : config.openTtlSecs < u64Max) :
    FirstStepGrows config ↔ config.openTtlSecs < nextSecs config config.openTtlSecs := by
  obtain hf | ⟨q, hf, hq⟩ := factor_cases hg.factor hg.number
  · rw [nextSecs_posInf hf hlt.le]
    refine iff_of_true ?_ hlt
    have hcast : F64.Rounding.nearest.cast config.openTtlSecs =
        .finite (F64.binary64.round config.openTtlSecs) := F64.ofNat_nearest hlt.le
    have hpos : (0 : ℚ) < F64.binary64.round config.openTtlSecs :=
      F64.round_natCast_pos hg.positive
    rw [FirstStepGrows, hf, hcast]
    show F64.le _ (F64.infOfSign _).nearest = true
    rw [F64.infOfSign, if_neg hpos.ne', if_pos hpos]
    rfl
  · have hcast : F64.Rounding.nearest.cast config.openTtlSecs =
        .finite (F64.binary64.round config.openTtlSecs) := F64.ofNat_nearest hlt.le
    have hq0 : 0 ≤ q := by linarith
    rw [← Nat.succ_le_iff, le_nextSecs_iff_round hf hq0 hg.positive hlt.le hlt, FirstStepGrows, hf,
      hcast]
    refine F64.ofNat_le_ofRounded (hlt.trans (by decide)) (Lib.Format.round_nonneg ?_)
    exact mul_nonneg (Lib.Format.round_nonneg (Nat.cast_nonneg _)) hq0

/-- From five seconds the factor `1.2` leads to six: the `f64` is below it, and the product
    is rounded up. -/
example : nextSecs { CircuitBreakerConfig.default with
    openTtlSecs := 5, backoffFactor := (F64.finite (12 / 10)).nearest } 5 = 6 := by
  decide +kernel

/-- Where the first product reaches the next second, the product of every longer backoff
    does. -/
theorem lt_nextSecs (hg : Growing config) (hf64 : config.backoffFactor.Representable)
    (hfactor : (F64.finite 1).lt config.backoffFactor = true)
    (h : config.openTtlSecs < nextSecs config config.openTtlSecs)
    (hle : config.openTtlSecs ≤ secs) (hlt : secs < u64Max) : secs < nextSecs config secs := by
  obtain hf | ⟨q, hf, -⟩ := factor_cases hg.factor hg.number
  · rwa [nextSecs_posInf hf hlt.le]
  rw [hf] at hf64 hfactor
  have hq : 1 < q := of_decide_eq_true hfactor
  have hpos := hg.positive
  rw [← Nat.succ_le_iff] at h ⊢
  rw [le_nextSecs_iff_round hf (by linarith) hpos (hle.trans hlt.le) (hle.trans_lt hlt)] at h
  rw [le_nextSecs_iff_round hf (by linarith) (hpos.trans_le hle) hlt.le hlt]
  push_cast at h ⊢
  rcases Nat.lt_or_ge secs (2 ^ 52) with hsmall | hlarge
  · -- what is missing from the next second grows less than the product
    have hcast : ∀ n : ℕ, n < 2 ^ 52 → F64.binary64.round (n : ℚ) = n := fun n hn =>
      F64.round_natCast (hn.trans (by decide))
    rw [hcast _ (hle.trans_lt hsmall),
      Lib.Format.succ_le_round_mul_iff hpos (hle.trans_lt hsmall) hq.le] at h
    rw [hcast _ hsmall, Lib.Format.succ_le_round_mul_iff (hpos.trans_le hle) hsmall hq.le]
    have hopen : (0 : ℚ) < config.openTtlSecs := Nat.cast_pos.mpr hpos
    have hsecs : (config.openTtlSecs : ℚ) ≤ secs := Nat.cast_le.mpr hle
    have hquantum := Lib.Format.quantum_mono (F := F64.binary64) hopen hsecs
    have hmul := mul_le_mul_of_nonneg_right hsecs (sub_nonneg.mpr hq.le)
    linarith
  · exact Lib.Format.succ_le_round_mul hlarge (F64.representable_of_finite hf64) hq

end Seconds

/-! ## Runs -/

section Runs

variable {config : CircuitBreakerConfig} {p : String} {s : Breaker}
  {tr : List (Lib.Step Breaker Operation)} {t₀ : Instant}

/-- A reopened circuit stays open longer than before, up to `max_ttl_secs`. -/
theorem BackoffInv.capped_lt {ps : ProviderState} (hinv : BackoffInv config ps)
    (hg : Growing config) (hnext : ∀ secs, config.openTtlSecs ≤ secs → secs < u64Max →
      secs < nextSecs config secs)
    (hlt : ps.currentBackoff < Duration.fromSecs config.maxTtlSecs) :
    ps.currentBackoff < ProviderState.cappedTtl config ps.currentBackoff := by
  obtain ⟨secs, hheld, hbackoff⟩ := hinv.bounds
  rw [hbackoff, fromSecs_lt_iff] at hlt
  rw [hbackoff, cappedTtl_fromSecs, fromSecs_lt_iff]
  exact lt_min (hnext secs hheld.openTtl (hlt.trans_le hg.u64)) hlt

/-- Where every product reaches the next second, every run grows. -/
theorem growsStrictly_of_lt_nextSecs (hg : Growing config)
    (hnext : ∀ secs, config.openTtlSecs ≤ secs → secs < u64Max → secs < nextSecs config secs)
    (hrun : Lib.Run (operations config) (.new t₀) tr s) : GrowsStrictly config tr := by
  rintro pre x mid y post p u d u' d' rfl hx hy hhalf hclosed hlt
  have hgrows := backoff_grows (p := p) hg hrun hclosed
  obtain ⟨-, hd, -⟩ := enters_cases hx hrun.split.2.2
  rw [hd] at hgrows
  rw [← List.cons_append, ← List.append_assoc] at hrun
  obtain ⟨hpre, -, hpost⟩ := hrun.split
  obtain ⟨-, -, ⟨hstate, -⟩ | ⟨-, rfl⟩⟩ := enters_cases hy hpost
  · rw [hhalf] at hstate
    cases hstate
  have hinv := backoffInv_run (p := p) hg hpre
  rcases lt_or_ge (y.pre.provider config p).currentBackoff (Duration.fromSecs config.maxTtlSecs)
    with hbelow | hmax
  · exact hgrows.trans_lt (hinv.capped_lt hg hnext hbelow)
  · -- the backoff is at its maximum, and does not decrease
    exact hlt.trans_le (hmax.trans (hinv.capped hg).2)

/-- Where the bounds are the same, there is nowhere to grow. -/
theorem growsStrictly_of_openTtl_eq (hg : Growing config)
    (h : config.openTtlSecs = config.maxTtlSecs)
    (hrun : Lib.Run (operations config) (.new t₀) tr s) : GrowsStrictly config tr := by
  rintro pre x mid y post p u d u' d' rfl hx hy hhalf hclosed hlt
  obtain ⟨-, hd, -⟩ := enters_cases hx hrun.split.2.2
  obtain ⟨hpre, -, hpost⟩ := hrun.split
  obtain ⟨secs, hheld, hsecs⟩ := ((backoffInv_run (p := p) hg hpre).step hg).1.bounds
  rw [← hpost, hd] at hsecs
  rw [hsecs, fromSecs_lt_iff] at hlt
  have := hheld.openTtl
  omega

end Runs

/-! ## The first reopening -/

/-- The rate limit opens the circuit for the first time. -/
theorem reopening_opens (config : CircuitBreakerConfig) :
    let op := Operation.recordResult "openai" .rateLimited 0
    let ttl := Duration.fromSecs config.openTtlSecs
    Enters config "openai" ⟨.new 0, op, (operations config).step (.new 0) op⟩ (0 + ttl) ttl := by
  intro op ttl
  refine ⟨fun u d hopen => ?_, ?_⟩
  · cases hopen
  · show (((operations config).step (.new 0) op).provider config "openai").state = _
    rw [step_recordResult]
    rfl

/-- In the run of a single failed probe, the first product counts. -/
theorem lt_nextSecs_of_growsStrictly {config : CircuitBreakerConfig}
    (h : GrowsStrictly config ((operations config).trace (.new 0) (reopening config)))
    (hlt : config.openTtlSecs < config.maxTtlSecs) :
    config.openTtlSecs < nextSecs config config.openTtlSecs := by
  have hopens := reopening_opens config
  have hreopens := reopening_reopens config
  obtain ⟨hhalf, -⟩ := reopening_halfOpen config
  dsimp only at hopens hreopens
  have hgrows := h [] _ [_] _ [] "openai" _ _ _ _ rfl hopens hreopens hhalf (fun z hz hcloses => by
    -- the probe is let through in between
    obtain rfl := List.mem_singleton.mp hz
    exact absurd (hhalf.symm.trans hcloses.2) (by decide)) (fromSecs_lt_iff.mpr hlt)
  rw [cappedTtl_fromSecs, fromSecs_lt_iff] at hgrows
  exact hgrows.trans_le (Nat.min_le_left _ _)

/-- Where the first product does not grow, the deadlines of the run are at most twice
    `open_ttl_secs`. -/
theorem reopening_deadline {config : CircuitBreakerConfig}
    (hstuck : nextSecs config config.openTtlSecs ≤ config.openTtlSecs)
    {x : Lib.Step Breaker Operation}
    (hx : x ∈ (operations config).trace (.new 0) (reopening config)) {p : String} {u : Instant}
    {d : Duration} (henters : Enters config p x u d) :
    u ≤ Duration.fromSecs config.openTtlSecs + Duration.fromSecs config.openTtlSecs := by
  have hpost : x.post = (operations config).step x.pre x.event := by
    obtain ⟨pre, post, htr⟩ := List.append_of_mem hx
    have hrun := reopening_run config
    rw [htr] at hrun
    exact hrun.split.2.2
  obtain ⟨r, now, hevent, -⟩ := enters_recorded henters hpost
  obtain ⟨rfl, -, hcases⟩ := enters_cases henters hpost
  obtain ⟨-, hbackoff⟩ := reopening_halfOpen config
  simp only [reopening, Lib.System.trace, List.mem_cons, List.not_mem_nil, or_false] at hx
  obtain rfl | rfl | rfl := hx
  · -- the rate limit, on a new circuit
    obtain ⟨-, rfl⟩ | ⟨hhalf', -⟩ := hcases
    · exact Nat.add_le_add_right (Nat.zero_le _) _
    · cases hhalf'
  · cases hevent
  · obtain rfl : "openai" = p := (Operation.recordResult.inj hevent).1
    obtain ⟨-, rfl⟩ | ⟨-, rfl⟩ := hcases
    · exact le_rfl
    · have hcapped := congrArg (ProviderState.cappedTtl config) hbackoff
      rw [cappedTtl_fromSecs] at hcapped
      refine Nat.add_le_add_left (hcapped.trans_le ?_) _
      exact fromSecs_le ((Nat.min_le_left _ _).trans hstuck)

/-- A first product that does not grow is a short one, and its deadlines fit. -/
theorem reopening_deadlinesFit {config : CircuitBreakerConfig} (hg : Growing config)
    (hf64 : config.backoffFactor.Representable)
    (hfactor : (F64.finite 1).lt config.backoffFactor = true)
    (hlt : config.openTtlSecs < u64Max)
    (hstuck : nextSecs config config.openTtlSecs ≤ config.openTtlSecs) :
    DeadlinesFit config ((operations config).trace (.new 0) (reopening config)) := by
  intro x hx p u d henters
  have hsmall : config.openTtlSecs < 2 ^ 52 := by
    obtain hf | ⟨q, hf, -⟩ := factor_cases hg.factor hg.number
    · rw [nextSecs_posInf hf hlt.le] at hstuck
      omega
    rw [hf] at hf64 hfactor
    have hq : 1 < q := of_decide_eq_true hfactor
    by_contra hlarge
    refine absurd ?_ (not_lt.mpr hstuck)
    rw [← Nat.succ_le_iff, le_nextSecs_iff_round hf (by linarith) hg.positive hlt.le hlt]
    push_cast
    exact Lib.Format.succ_le_round_mul (not_lt.mp hlarge) (F64.representable_of_finite hf64) hq
  refine (reopening_deadline hstuck hx henters).trans ?_
  have hfits : ∀ n : ℕ, n < 2 ^ 52 → n * 10 ^ 9 + n * 10 ^ 9 ≤ 2 ^ 63 * 10 ^ 9 - 1 := by omega
  exact hfits _ hsmall

/-- **Growth.** For every accepted configuration with a factor above one whose
    `max_ttl_secs` is a `u64` and whose factor is an `f64`: in every run whose deadlines
    are `Instant`s each failed probe reopens the circuit for longer than before, until
    `max_ttl_secs` is reached, exactly if `open_ttl_secs` is `max_ttl_secs` or the first
    product reaches the next second. -/
theorem growsStrictly_iff {display : F64 → String} {config : CircuitBreakerConfig}
    (haccepted : circuitBreakerErrors display config = [])
    (hfactor : (F64.finite 1).lt config.backoffFactor = true) (hu64 : config.maxTtlSecs ≤ u64Max)
    (hf64 : config.backoffFactor.Representable) :
    (∀ t₀ tr s, Lib.Run (operations config) (.new t₀) tr s → DeadlinesFit config tr →
      GrowsStrictly config tr) ↔
      config.openTtlSecs = config.maxTtlSecs ∨ FirstStepGrows config := by
  have hg := growing_of_accepted haccepted hfactor hf64 hu64
  rcases hg.ttl.eq_or_lt with heq | hlt
  · exact iff_of_true (fun _ _ _ hrun _ => growsStrictly_of_openTtl_eq hg heq hrun) (.inl heq)
  rw [or_iff_right hlt.ne, firstStepGrows_iff hg (hlt.trans_le hu64)]
  constructor
  · intro h
    by_contra hstuck
    refine hstuck (lt_nextSecs_of_growsStrictly (h _ _ _ (reopening_run config) ?_) hlt)
    exact reopening_deadlinesFit hg hf64 hfactor (hlt.trans_le hu64) (not_lt.mp hstuck)
  · exact fun hfirst t₀ tr s hrun _ => growsStrictly_of_lt_nextSecs hg
      (fun _ => lt_nextSecs hg hf64 hfactor hfirst) hrun

/-- The default configuration grows. -/
theorem growsStrictly_default :
    (∀ t₀ tr s, Lib.Run (operations .default) (.new t₀) tr s → DeadlinesFit .default tr →
      GrowsStrictly .default tr) ↔
      CircuitBreakerConfig.default.openTtlSecs = CircuitBreakerConfig.default.maxTtlSecs ∨
        FirstStepGrows .default :=
  growsStrictly_iff (circuitBreakerErrors_default fun _ => "") (by decide +kernel) (by decide)
    (by decide +kernel)

/-- The default configuration, with a short first backoff and a factor of three halves. -/
def stuckConfig : CircuitBreakerConfig :=
  { CircuitBreakerConfig.default with openTtlSecs := 1, backoffFactor := .finite (3 / 2) }

/-- From one second, the backoff does not grow: `1.5` seconds are one second. -/
theorem not_forall_growsStrictly :
    ¬ ∀ (display : F64 → String) (config : CircuitBreakerConfig),
      circuitBreakerErrors display config = [] →
      (F64.finite 1).lt config.backoffFactor = true → config.maxTtlSecs ≤ u64Max →
      config.backoffFactor.Representable →
      ∀ t₀ tr s, Lib.Run (operations config) (.new t₀) tr s → DeadlinesFit config tr →
        GrowsStrictly config tr := by
  intro h
  have haccepted : circuitBreakerErrors (fun _ => "") stuckConfig = [] := by
    rw [circuitBreakerErrors_eq_nil_iff]
    decide +kernel
  have hstuck : nextSecs stuckConfig stuckConfig.openTtlSecs ≤ stuckConfig.openTtlSecs := by
    decide +kernel
  have hg := growing_of_accepted haccepted (by decide +kernel) (by decide +kernel) (by decide)
  have hgrows := h _ stuckConfig haccepted (by decide +kernel) (by decide) (by decide +kernel)
    _ _ _ (reopening_run stuckConfig) (reopening_deadlinesFit hg (by decide +kernel)
      (by decide +kernel) (by decide) hstuck)
  exact absurd (lt_nextSecs_of_growsStrictly hgrows (by decide)) (not_lt.mpr hstuck)

end Melis.CircuitBreaker
