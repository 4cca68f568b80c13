import Melis.CircuitBreaker.Opening
import Melis.Config.Validate

/-!
# How long a circuit stays open

What an open circuit promises under an accepted configuration, over whole runs:
no call is let through and no result changes anything before its deadline; the
durations lie between `open_ttl_secs` and `max_ttl_secs`, begin at `open_ttl_secs`
and do not decrease until the circuit closes.

* `enters_cases`: how a circuit enters `Open`, and with what duration.
* `le_nextSecs_iff`: when the next backoff, a product rounded to `f64` and truncated, is
  no shorter; `nextSecs_mono`: then neither is any later one.
* `BackoffInv`: the backoff of a provider lies within the configured bounds, and the next
  one is no shorter.
* `enters_blocked`: an open circuit stays open until its deadline.
* `backoff_promise_iff`: the promise holds in every run unless the backoff factor
  is NaN, which `validate` accepts, or is one and `open_ttl_secs` no `f64`.
* `nan_reopens_for_zero`: a circuit that reopens for no time at all.
-/

namespace Melis.CircuitBreaker

/-- The step opens the circuit of `p` until `openUntil`, with the duration `ttl`. -/
def Enters (config : CircuitBreakerConfig) (p : String) (x : Lib.Step Breaker Operation)
    (openUntil : Instant) (ttl : Duration) : Prop :=
  (∀ u d, (x.pre.provider config p).state ≠ .opened u d) ∧
    (x.post.provider config p).state = .opened openUntil ttl

/-- What an open circuit promises in the run `tr`. -/
structure BackoffPromise (config : CircuitBreakerConfig)
    (tr : List (Lib.Step Breaker Operation)) : Prop where
  deadline : ∀ x ∈ tr, ∀ p u d, Enters config p x u d → u = x.event.now + d
  blocked : ∀ pre x mid y post p u d, tr = pre ++ x :: (mid ++ y :: post) → Enters config p x u d →
    y.event.now < x.event.now + d →
      (y.post.provider config p).state = .opened u d ∧
        ∀ now, y.event = .isAvailable p now →
          (CircuitBreaker.isAvailable config y.pre.states p now).1 = false
  bounds : ∀ x ∈ tr, ∀ p u d, Enters config p x u d →
    Duration.fromSecs config.openTtlSecs ≤ d ∧ d ≤ Duration.fromSecs config.maxTtlSecs
  first : ∀ x ∈ tr, ∀ p u d, Enters config p x u d →
    (x.pre.provider config p).state = .closed → d = Duration.fromSecs config.openTtlSecs
  grows : ∀ pre x mid y post p u d u' d', tr = pre ++ x :: (mid ++ y :: post) →
    Enters config p x u d → Enters config p y u' d' →
      (y.pre.provider config p).state = .halfOpen → (∀ z ∈ mid, ¬ Closes config p z) → d ≤ d'

/-! ## Durations -/

theorem fromSecs_le {a b : ℕ} (h : a ≤ b) : Duration.fromSecs a ≤ Duration.fromSecs b :=
  Nat.mul_le_mul_right _ h

theorem fromSecs_lt_iff {a b : ℕ} : Duration.fromSecs a < Duration.fromSecs b ↔ a < b :=
  Nat.mul_lt_mul_right (by decide)

theorem asSecs_fromSecs (secs : ℕ) : (Duration.fromSecs secs).asSecs = secs :=
  Nat.mul_div_cancel _ (by decide)

/-- The next backoff, in seconds, before it is capped (lines 203–204). -/
def nextSecs (config : CircuitBreakerConfig) (secs : ℕ) : ℕ :=
  (F64.Rounding.nearest.mul (F64.Rounding.nearest.cast (max secs 1)) config.backoffFactor).toNat

theorem cappedTtl_fromSecs (config : CircuitBreakerConfig) (secs : ℕ) :
    ProviderState.cappedTtl config (Duration.fromSecs secs) =
      Duration.fromSecs (min (nextSecs config secs) config.maxTtlSecs) := by
  rw [ProviderState.cappedTtl, asSecs_fromSecs]
  rfl

section NextSecs

variable {config : CircuitBreakerConfig} {secs : ℕ} {q : ℚ}

/-- NaN seconds are none. -/
theorem nextSecs_nan (hf : config.backoffFactor = .nan) (secs : ℕ) : nextSecs config secs = 0 := by
  rw [nextSecs, hf, F64.Rounding.mul, F64.mul_nan]
  rfl

/-- An infinite factor makes the longest backoff. -/
theorem nextSecs_posInf (hf : config.backoffFactor = .posInf) (hle : secs ≤ u64Max) :
    nextSecs config secs = u64Max := by
  have hbase : max secs 1 ≤ u64Max := max_le hle (by decide)
  have hpos := F64.round_natCast_pos (lt_max_of_lt_right one_pos : 0 < max secs 1)
  have hcast : F64.Rounding.nearest.cast (max secs 1) =
      .finite (F64.binary64.round (max secs 1 : ℕ)) := F64.ofNat_nearest hbase
  rw [nextSecs, hf, hcast]
  show (F64.infOfSign _).nearest.toNat = u64Max
  rw [F64.infOfSign, if_neg hpos.ne', if_pos hpos]
  rfl

/-- With a finite factor, the digits of the product decide. -/
theorem min_nextSecs (hf : config.backoffFactor = .finite q) (hq : 0 ≤ q) (hsecs : 0 < secs)
    (hle : secs ≤ u64Max) :
    min (nextSecs config secs) u64Max =
      min ⌊F64.binary64.round (F64.binary64.round secs * q)⌋₊ u64Max := by
  have hcast : F64.Rounding.nearest.cast secs = .finite (F64.binary64.round secs) :=
    F64.ofNat_nearest hle
  rw [nextSecs, Nat.max_eq_left hsecs, hf, hcast]
  refine F64.min_toNat_ofRounded (Lib.Format.round_nonneg (mul_nonneg ?_ hq))
  exact Lib.Format.round_nonneg (Nat.cast_nonneg secs)

/-- A backoff within `u64` is compared with the next one by the digits of the product. -/
theorem le_nextSecs_iff_round {n : ℕ} (hf : config.backoffFactor = .finite q) (hq : 0 ≤ q)
    (hsecs : 0 < secs) (hle : secs ≤ u64Max) (hn : n ≤ u64Max) :
    n ≤ nextSecs config secs ↔
      (n : ℚ) ≤ F64.binary64.round (F64.binary64.round secs * q) := by
  have hround := Lib.Format.round_nonneg (F := F64.binary64) (mul_nonneg
    (Lib.Format.round_nonneg (F := F64.binary64) (Nat.cast_nonneg (α := ℚ) secs)) hq)
  rw [← Nat.le_floor_iff hround, ← and_iff_left (a := n ≤ nextSecs config secs) hn, ← le_min_iff,
    min_nextSecs hf hq hsecs hle, le_min_iff, and_iff_left hn]

/-- An accepted factor that is a number is infinite, or finite and at least one. -/
theorem factor_cases (haccepted : config.backoffFactor.lt (.finite 1) = false)
    (hnan : config.backoffFactor ≠ .nan) :
    config.backoffFactor = .posInf ∨ ∃ q, config.backoffFactor = .finite q ∧ 1 ≤ q := by
  match hf : config.backoffFactor with
  | .nan => exact absurd hf hnan
  | .negInf =>
    rw [hf] at haccepted
    cases haccepted
  | .posInf => exact .inl rfl
  | .finite q =>
    rw [hf] at haccepted
    exact .inr ⟨q, rfl, not_lt.mp (of_decide_eq_false haccepted)⟩

/-- A longer backoff is followed by one at least as long. -/
theorem nextSecs_mono {n : ℕ} (haccepted : config.backoffFactor.lt (.finite 1) = false)
    (hnan : config.backoffFactor ≠ .nan) (hsecs : 0 < secs) (h : secs ≤ n) (hn : n ≤ u64Max)
    {d : ℕ} (hd : d ≤ u64Max) (hnext : d ≤ nextSecs config secs) : d ≤ nextSecs config n := by
  obtain hf | ⟨q, hf, hq⟩ := factor_cases haccepted hnan
  · rw [nextSecs_posInf hf hn]
    exact hd
  · have hq0 : 0 ≤ q := by linarith
    rw [le_nextSecs_iff_round hf hq0 hsecs (h.trans hn) hd] at hnext
    rw [le_nextSecs_iff_round hf hq0 (hsecs.trans_le h) hn hd]
    have hround : F64.binary64.round (secs : ℚ) ≤ F64.binary64.round n :=
      Lib.Format.round_mono (Nat.cast_nonneg secs) (by exact_mod_cast h)
    refine hnext.trans (Lib.Format.round_mono (mul_nonneg ?_ hq0)
      (mul_le_mul_of_nonneg_right hround hq0))
    exact Lib.Format.round_nonneg (Nat.cast_nonneg secs)

/-- The cast to `f64` does not shorten `secs`. -/
def CastKeeps (secs : ℕ) : Prop := (F64.ofNat secs).le (F64.ofNat secs).nearest = true

theorem castKeeps_iff (hle : secs ≤ u64Max) :
    CastKeeps secs ↔ (secs : ℚ) ≤ F64.binary64.round secs := by
  rw [CastKeeps, F64.ofNat_nearest hle]
  exact decide_eq_true_iff

/-- The next backoff is shorter only where the factor is no number, or is one and the
    cast to `f64` shortens. -/
theorem le_nextSecs_iff (haccepted : config.backoffFactor.lt (.finite 1) = false)
    (hrep : config.backoffFactor.Representable) (hsecs : 0 < secs) (hle : secs ≤ u64Max) :
    secs ≤ nextSecs config secs ↔
      config.backoffFactor ≠ .nan ∧ (config.backoffFactor = .finite 1 → CastKeeps secs) := by
  by_cases hnan : config.backoffFactor = .nan
  · refine iff_of_false (fun h => ?_) fun h => h.1 hnan
    rw [nextSecs_nan hnan] at h
    exact absurd h (Nat.not_le_of_lt hsecs)
  rw [and_iff_right hnan]
  obtain hf | ⟨q, hf, hq⟩ := factor_cases haccepted hnan
  · rw [nextSecs_posInf hf hle]
    refine iff_of_true hle fun h => ?_
    rw [hf] at h
    cases h
  rw [le_nextSecs_iff_round hf (by linarith) hsecs hle hle, hf]
  rcases hq.eq_or_lt with rfl | hlt
  · -- the cast is rounded again, which brings nothing back
    rw [forall_prop_of_true rfl, castKeeps_iff hle, mul_one]
    have hnonneg := Lib.Format.round_nonneg (F := F64.binary64) (Nat.cast_nonneg (α := ℚ) secs)
    constructor
    · intro h
      by_contra hshort
      have := Lib.Format.round_mono (F := F64.binary64) hnonneg (not_le.mp hshort).le
      linarith
    · exact fun h => h.trans (Lib.Format.round_mono (Nat.cast_nonneg secs) h)
  · refine iff_of_true ?_ fun h => absurd (F64.finite.inj h) hlt.ne'
    rcases Nat.lt_or_ge secs (2 ^ 52) with hsmall | hlarge
    · have hround : F64.binary64.round (secs : ℚ) = secs :=
        F64.round_natCast (hsmall.trans (by decide))
      have hmono := Lib.Format.round_mono (F := F64.binary64) (Nat.cast_nonneg secs)
        (le_mul_of_one_le_right (Nat.cast_nonneg (α := ℚ) secs) hq)
      rwa [hround] at hmono ⊢
    · rw [hf] at hrep
      have := Lib.Format.succ_le_round_mul hlarge (F64.representable_of_finite hrep) hlt
      linarith

end NextSecs

/-! ## One step -/

section Step

variable {config : CircuitBreakerConfig} {p : String} {s : Breaker} {op : Operation}

/-- Only a result for the provider opens its circuit. -/
theorem enters_recorded {x : Lib.Step Breaker Operation} {u : Instant} {d : Duration}
    (h : Enters config p x u d) (hpost : x.post = (operations config).step x.pre x.event) :
    ∃ r now, x.event = .recordResult p r now ∧
      x.post.provider config p = (x.pre.provider config p).recordResult config r now := by
  obtain ⟨s, op, s'⟩ := x
  obtain rfl : s' = (operations config).step s op := hpost
  obtain ⟨hbefore, hafter⟩ := h
  have heffect := step_effect config s op p
  dsimp only at hbefore hafter ⊢
  generalize ((operations config).step s op).provider config p = ps' at heffect hafter ⊢
  cases heffect with
  | other _ hasked hrecorded => exact absurd hafter (hbefore u d)
  | asked now =>
    rcases (s.provider config p).isAvailable_cases now with hsame | ⟨u', d', hopen, -, -⟩
    · rw [hsame] at hafter
      exact absurd hafter (hbefore u d)
    · exact absurd hopen (hbefore u' d')
  | recorded r now => exact ⟨r, now, rfl, rfl⟩

/-- How a call opens a circuit: a result for a closed or half-open provider, with
    the initial or the next backoff. -/
theorem enters_cases {x : Lib.Step Breaker Operation} {u : Instant} {d : Duration}
    (h : Enters config p x u d) (hpost : x.post = (operations config).step x.pre x.event) :
    u = x.event.now + d ∧ (x.post.provider config p).currentBackoff = d ∧
      (((x.pre.provider config p).state = .closed ∧ d = Duration.fromSecs config.openTtlSecs) ∨
        ((x.pre.provider config p).state = .halfOpen ∧
          d = ProviderState.cappedTtl config (x.pre.provider config p).currentBackoff)) := by
  obtain ⟨r, now, hevent, hrecorded⟩ := enters_recorded h hpost
  obtain ⟨hbefore, hafter⟩ := h
  have hstep := (x.pre.provider config p).recordResult_step config r now
  rw [← hrecorded] at hstep
  rw [hevent]
  generalize x.post.provider config p = ps' at hstep hafter ⊢
  cases hstep with
  | stays hstate htrips => exact absurd hafter (hbefore u d)
  | opens hstate htrips =>
    obtain ⟨rfl, rfl⟩ := CircuitState.opened.inj hafter
    exact ⟨rfl, rfl, .inl ⟨hstate, rfl⟩⟩
  | ignored u' d' hstate => exact absurd hstate (hbefore u' d')
  | closes hstate hresult => cases hafter
  | reopens hstate hresult =>
    obtain ⟨rfl, rfl⟩ := CircuitState.opened.inj hafter
    exact ⟨rfl, rfl, .inr ⟨hstate, rfl⟩⟩

/-- Before its deadline nothing changes the state of an open circuit. -/
theorem step_opened {u : Instant} {d : Duration}
    (h : (s.provider config p).state = .opened u d) (hnow : op.now < u) :
    (((operations config).step s op).provider config p).state = .opened u d := by
  have heffect := step_effect config s op p
  generalize ((operations config).step s op).provider config p = ps' at heffect ⊢
  cases heffect with
  | other _ hasked hrecorded => exact h
  | asked now =>
    rcases (s.provider config p).isAvailable_cases now with hsame | ⟨u', d', hopen, hle, -⟩
    · rw [hsame]
      exact h
    · rw [h] at hopen
      obtain ⟨rfl, rfl⟩ := CircuitState.opened.inj hopen
      exact absurd hle (not_le_of_gt hnow)
  | recorded r now =>
    have hstep := (s.provider config p).recordResult_step config r now
    generalize (s.provider config p).recordResult config r now = ps' at hstep ⊢
    cases hstep with
    | stays hstate htrips => exact h
    | opens hstate htrips =>
      rw [h] at hstate
      cases hstate
    | ignored u' d' hstate => exact h
    | closes hstate hresult =>
      rw [h] at hstate
      cases hstate
    | reopens hstate hresult =>
      rw [h] at hstate
      cases hstate

end Step

/-! ## The backoff within its bounds -/

/-- A backoff within the bounds that is followed by one at least as long. -/
structure Held (config : CircuitBreakerConfig) (secs : ℕ) : Prop where
  openTtl : config.openTtlSecs ≤ secs
  maxTtl : secs ≤ config.maxTtlSecs
  next : secs ≤ nextSecs config secs

/-- The backoff is a number of seconds that is held, the initial one while the circuit
    is closed. -/
structure BackoffInv (config : CircuitBreakerConfig) (ps : ProviderState) : Prop where
  bounds : ∃ secs, Held config secs ∧ ps.currentBackoff = Duration.fromSecs secs
  closed : ps.state = .closed → ps.currentBackoff = Duration.fromSecs config.openTtlSecs

/-- The configuration is accepted, its factor is a number, the first backoff is followed
    by one at least as long, and `max_ttl_secs` is a `u64`. -/
structure Growing (config : CircuitBreakerConfig) : Prop where
  positive : 0 < config.openTtlSecs
  ttl : config.openTtlSecs ≤ config.maxTtlSecs
  factor : config.backoffFactor.lt (.finite 1) = false
  number : config.backoffFactor ≠ .nan
  first : config.openTtlSecs ≤ nextSecs config config.openTtlSecs
  u64 : config.maxTtlSecs ≤ u64Max

section Invariant

variable {config : CircuitBreakerConfig} {p : String} {s : Breaker} {op : Operation}
  {tr : List (Lib.Step Breaker Operation)} {t₀ : Instant}

/-- The first backoff is held. -/
theorem Growing.held (hg : Growing config) : Held config config.openTtlSecs :=
  ⟨le_rfl, hg.ttl, hg.first⟩

/-- The backoff after one that is held is no shorter, and held. -/
theorem Held.capped {secs : ℕ} (h : Held config secs) (hg : Growing config) :
    let next := min (nextSecs config secs) config.maxTtlSecs
    secs ≤ next ∧ Held config next := by
  intro next
  have hle : secs ≤ next := le_min h.next h.maxTtl
  have hmax : next ≤ config.maxTtlSecs := Nat.min_le_right _ _
  refine ⟨hle, h.openTtl.trans hle, hmax, ?_⟩
  -- what follows the shorter one follows the longer one as well
  exact nextSecs_mono hg.factor hg.number (hg.positive.trans_le h.openTtl) hle (hmax.trans hg.u64)
    (hmax.trans hg.u64) (Nat.min_le_left _ _)

theorem backoffInv_new (hg : Growing config) :
    BackoffInv config (.new (Duration.fromSecs config.openTtlSecs)) where
  bounds := ⟨config.openTtlSecs, hg.held, rfl⟩
  closed _ := rfl

/-- A reopened circuit stays open at least as long as before, within the bounds. -/
theorem BackoffInv.capped {ps : ProviderState} (h : BackoffInv config ps) (hg : Growing config) :
    (∃ secs, Held config secs ∧
      ProviderState.cappedTtl config ps.currentBackoff = Duration.fromSecs secs) ∧
    ps.currentBackoff ≤ ProviderState.cappedTtl config ps.currentBackoff := by
  obtain ⟨secs, hheld, hbackoff⟩ := h.bounds
  obtain ⟨hle, hnext⟩ := hheld.capped hg
  rw [hbackoff, cappedTtl_fromSecs]
  exact ⟨⟨_, hnext, rfl⟩, fromSecs_le hle⟩

/-- A call keeps the backoff within its bounds, and shortens it only by closing the
    circuit. -/
theorem BackoffInv.step (h : BackoffInv config (s.provider config p)) (hg : Growing config) :
    let s' := (operations config).step s op
    BackoffInv config (s'.provider config p) ∧
      (¬ Closes config p ⟨s, op, s'⟩ →
        (s.provider config p).currentBackoff ≤ (s'.provider config p).currentBackoff) := by
  intro s'
  have heffect : Effect config p s op (s'.provider config p) := step_effect config s op p
  have hcloses : Closes config p ⟨s, op, s'⟩ ↔
      (s.provider config p).state ≠ .closed ∧ (s'.provider config p).state = .closed := Iff.rfl
  generalize s'.provider config p = ps' at heffect hcloses ⊢
  cases heffect with
  | other _ hasked hrecorded => exact ⟨h, fun _ => le_rfl⟩
  | asked now =>
    rcases (s.provider config p).isAvailable_cases now with hsame | ⟨u, d, hopen, hle, hprobe⟩
    · rw [hsame]
      exact ⟨h, fun _ => le_rfl⟩
    · rw [hprobe]
      exact ⟨⟨h.bounds, fun hc => by cases hc⟩, fun _ => le_rfl⟩
  | recorded r now =>
    have hstep := (s.provider config p).recordResult_step config r now
    generalize (s.provider config p).recordResult config r now = ps' at hstep hcloses ⊢
    cases hstep with
    | stays hstate htrips => exact ⟨⟨h.bounds, h.closed⟩, fun _ => le_rfl⟩
    | opens hstate htrips =>
      refine ⟨⟨⟨config.openTtlSecs, hg.held, rfl⟩, fun _ => rfl⟩, fun _ => ?_⟩
      exact (h.closed hstate).le
    | ignored u d hstate => exact ⟨⟨h.bounds, h.closed⟩, fun _ => le_rfl⟩
    | closes hstate hresult =>
      refine ⟨backoffInv_new hg, fun hnot => absurd (hcloses.mpr ⟨?_, rfl⟩) hnot⟩
      rw [hstate]
      exact CircuitState.noConfusion
    | reopens hstate hresult =>
      obtain ⟨hbounds, hle⟩ := h.capped hg
      exact ⟨⟨hbounds, fun hc => by cases hc⟩, fun _ => hle⟩

theorem backoffInv_run (hg : Growing config) (hrun : Lib.Run (operations config) (.new t₀) tr s) :
    BackoffInv config (s.provider config p) :=
  hrun.invariant (P := fun s => BackoffInv config (s.provider config p)) (backoffInv_new hg)
    fun _ _ _ h => (h.step hg).1

/-! ## Runs -/

/-- A circuit that has entered `Open` stays as it is until its deadline. -/
theorem enters_blocked {pre mid post : List (Lib.Step Breaker Operation)}
    {x y : Lib.Step Breaker Operation} {u : Instant} {d : Duration}
    (hrun : Lib.Run (operations config) (.new t₀) (pre ++ x :: (mid ++ y :: post)) s)
    (henters : Enters config p x u d) (hnow : y.event.now < u) :
    (y.pre.provider config p).state = .opened u d ∧
      (y.post.provider config p).state = .opened u d := by
  rw [← List.cons_append, ← List.append_assoc] at hrun
  obtain ⟨hmid, henabled, hpost⟩ := hrun.split
  have hstill : (y.pre.provider config p).state = .opened u d ∨ u ≤ y.pre.clock := by
    refine hmid.between (P := fun s => (s.provider config p).state = .opened u d ∨ u ≤ s.clock)
      (.inl henters.2) fun z _ hz hzpost h => ?_
    rw [hzpost, step_clock]
    rcases h with h | h
    · rcases lt_or_ge z.event.now u with hlt | hge
      · exact .inl (step_opened h hlt)
      · exact .inr hge
    · exact .inr (h.trans hz)
  have hopened := hstill.resolve_right (not_le_of_gt (lt_of_le_of_lt henabled hnow))
  refine ⟨hopened, ?_⟩
  rw [hpost]
  exact step_opened hopened hnow

/-- Without a closure in between the backoff does not decrease. -/
theorem backoff_grows {pre mid post : List (Lib.Step Breaker Operation)}
    {x y : Lib.Step Breaker Operation} (hg : Growing config)
    (hrun : Lib.Run (operations config) (.new t₀) (pre ++ x :: (mid ++ y :: post)) s)
    (hopen : ∀ z ∈ mid, ¬ Closes config p z) :
    (x.post.provider config p).currentBackoff ≤ (y.pre.provider config p).currentBackoff := by
  obtain ⟨hpre, -, hpost⟩ := hrun.split
  rw [← List.cons_append, ← List.append_assoc] at hrun
  have hx : BackoffInv config (x.post.provider config p) := by
    rw [hpost]
    exact ((backoffInv_run hg hpre).step hg).1
  refine (hrun.split.1.between (P := fun s => BackoffInv config (s.provider config p) ∧
    (x.post.provider config p).currentBackoff ≤ (s.provider config p).currentBackoff)
    ⟨hx, le_rfl⟩ fun z hz _ hzpost h => ?_).2
  obtain ⟨hinv, hle⟩ := @BackoffInv.step config p z.pre z.event h.1 hg
  rw [hzpost]
  exact ⟨hinv, h.2.trans (hle fun hc => hopen z hz ⟨hc.1, hzpost ▸ hc.2⟩)⟩

/-- Under a growing backoff every run keeps the promise. -/
theorem backoff_promise (hg : Growing config)
    (hrun : Lib.Run (operations config) (.new t₀) tr s) : BackoffPromise config tr where
  deadline x hx p u d henters := by
    obtain ⟨pre, post, rfl⟩ := List.append_of_mem hx
    exact (enters_cases henters hrun.split.2.2).1
  blocked pre x mid y post p u d htr henters hnow := by
    subst htr
    rw [← (enters_cases henters hrun.split.2.2).1] at hnow
    obtain ⟨hbefore, hafter⟩ := enters_blocked hrun henters hnow
    refine ⟨hafter, ?_⟩
    intro now hasked
    rw [hasked] at hnow
    refine Bool.eq_false_iff.mpr fun havail => ?_
    exact not_le_of_gt hnow (ProviderState.isAvailable_eq_true_iff.mp havail u d hbefore)
  bounds x hx p u d henters := by
    obtain ⟨pre, post, rfl⟩ := List.append_of_mem hx
    obtain ⟨hpre, -, hpost⟩ := hrun.split
    obtain ⟨-, hbackoff, -⟩ := enters_cases henters hpost
    obtain ⟨secs, hheld, hsecs⟩ := ((backoffInv_run (p := p) hg hpre).step hg).1.bounds
    rw [← hpost, hbackoff] at hsecs
    rw [hsecs]
    exact ⟨fromSecs_le hheld.openTtl, fromSecs_le hheld.maxTtl⟩
  first x hx p u d henters hclosed := by
    obtain ⟨pre, post, rfl⟩ := List.append_of_mem hx
    obtain ⟨-, -, ⟨-, hd⟩ | ⟨hhalf, -⟩⟩ := enters_cases henters hrun.split.2.2
    · exact hd
    · rw [hclosed] at hhalf
      cases hhalf
  grows pre x mid y post p u d u' d' htr hx hy hhalf hopen := by
    subst htr
    have hgrows := backoff_grows (p := p) hg hrun hopen
    obtain ⟨-, hd, -⟩ := enters_cases hx hrun.split.2.2
    rw [← List.cons_append, ← List.append_assoc] at hrun
    obtain ⟨hpre, -, hpost⟩ := hrun.split
    obtain ⟨-, -, ⟨hclosed, -⟩ | ⟨-, hd'⟩⟩ := enters_cases hy hpost
    · rw [hclosed] at hhalf
      cases hhalf
    · rw [hd] at hgrows
      rw [hd']
      exact hgrows.trans ((backoffInv_run hg hpre).capped hg).2

end Invariant

/-! ## The first reopening -/

section Reopening

variable {config : CircuitBreakerConfig}

/-- A provider is rate limited; when its time is over, a probe is let through and
    fails. -/
def reopening (config : CircuitBreakerConfig) : List Operation :=
  [.recordResult "openai" .rateLimited 0,
    .isAvailable "openai" (Duration.fromSecs config.openTtlSecs),
    .recordResult "openai" .failure (Duration.fromSecs config.openTtlSecs)]

theorem reopening_run (config : CircuitBreakerConfig) :
    Lib.Run (operations config) (.new 0) ((operations config).trace (.new 0) (reopening config))
      ((reopening config).foldl (operations config).step (.new 0)) := by
  refine Lib.run_trace (operations config) (.new 0) (reopening config) fun x hx => ?_
  fin_cases hx
  · exact le_rfl
  · exact Nat.zero_le _
  · exact le_rfl

/-- The state of the provider after the rate limit and the probe's admission. -/
theorem reopening_halfOpen (config : CircuitBreakerConfig) :
    let s := ((reopening config).take 2).foldl (operations config).step (.new 0)
    (s.provider config "openai").state = .halfOpen ∧
      (s.provider config "openai").currentBackoff = Duration.fromSecs config.openTtlSecs := by
  intro s
  let s₁ := (operations config).step (.new 0) (.recordResult "openai" .rateLimited 0)
  have hs : s.provider config "openai" =
      ((s₁.provider config "openai").isAvailable (Duration.fromSecs config.openTtlSecs)).2 :=
    step_isAvailable config s₁ "openai" _
  have hs₁ : s₁.provider config "openai" =
      ((ProviderState.new (Duration.fromSecs config.openTtlSecs)).record config .rateLimited
        0).openFor 0 (Duration.fromSecs config.openTtlSecs) :=
    step_recordResult config (.new 0) "openai" .rateLimited 0
  rw [hs, hs₁]
  generalize Duration.fromSecs config.openTtlSecs = ttl
  have hle : 0 + ttl ≤ ttl := (Nat.zero_add ttl).le
  simp only [ProviderState.isAvailable, ProviderState.openFor, if_pos hle, and_self]

/-- The failed probe reopens the circuit with the next backoff. -/
theorem reopening_reopens (config : CircuitBreakerConfig) :
    let s := ((reopening config).take 2).foldl (operations config).step (.new 0)
    let now := Duration.fromSecs config.openTtlSecs
    let ttl := ProviderState.cappedTtl config now
    let op := Operation.recordResult "openai" .failure now
    Enters config "openai" ⟨s, op, (operations config).step s op⟩ (now + ttl) ttl := by
  intro s now ttl op
  obtain ⟨hhalf, hbackoff⟩ := reopening_halfOpen config
  refine ⟨fun u d hopen => ?_, ?_⟩
  · rw [hhalf] at hopen
    cases hopen
  · show (((operations config).step s op).provider config "openai").state = _
    have hstep := (s.provider config "openai").recordResult_step config .failure now
    rw [step_recordResult]
    generalize (s.provider config "openai").recordResult config .failure now = ps' at hstep ⊢
    cases hstep with
    | stays hstate htrips =>
      rw [hhalf] at hstate
      cases hstate
    | opens hstate htrips =>
      rw [hhalf] at hstate
      cases hstate
    | ignored u d hstate =>
      rw [hhalf] at hstate
      cases hstate
    | closes hstate hresult => cases hresult
    | reopens hstate hresult =>
      rw [hbackoff]
      rfl

/-- Where the next backoff is shorter, the failed probe reopens the circuit for less than
    `open_ttl_secs`. -/
theorem reopening_enters (hshort : nextSecs config config.openTtlSecs < config.openTtlSecs) :
    ∃ x ∈ (operations config).trace (.new 0) (reopening config), ∃ u d,
      Enters config "openai" x u d ∧ d < Duration.fromSecs config.openTtlSecs := by
  have hreopens := reopening_reopens config
  dsimp only at hreopens
  rw [cappedTtl_fromSecs] at hreopens
  refine ⟨_, .tail _ (.tail _ (.head _)), _, _, hreopens, ?_⟩
  exact fromSecs_lt_iff.mpr ((Nat.min_le_left _ _).trans_lt hshort)

/-- **Backoff.** For every accepted configuration whose `max_ttl_secs` is a `u64` and
    whose factor is an `f64`: every run keeps the promise of an open circuit exactly if
    the factor is not NaN and, where it is one, the cast of `open_ttl_secs` to `f64` does
    not shorten it. -/
theorem backoff_promise_iff {display : F64 → String}
    (haccepted : circuitBreakerErrors display config = []) (hu64 : config.maxTtlSecs ≤ u64Max)
    (hf64 : config.backoffFactor.Representable) :
    (∀ t₀ tr s, Lib.Run (operations config) (.new t₀) tr s → BackoffPromise config tr) ↔
      config.backoffFactor ≠ .nan ∧
        (config.backoffFactor = .finite 1 → CastKeeps config.openTtlSecs) := by
  obtain ⟨-, -, -, hopen, hmax, hfactor⟩ := circuitBreakerErrors_eq_nil_iff.mp haccepted
  have hpos : 0 < config.openTtlSecs := Nat.pos_of_ne_zero hopen
  rw [← le_nextSecs_iff hfactor hf64 hpos (hmax.trans hu64)]
  constructor
  · intro h
    by_contra hshort
    obtain ⟨x, hx, u, d, henters, hd⟩ := reopening_enters (not_le.mp hshort)
    have hbounds := (h _ _ _ (reopening_run config)).bounds x hx _ _ _ henters
    exact absurd hbounds.1 (not_le.mpr hd)
  · intro hfirst t₀ tr s hrun
    refine backoff_promise ⟨hpos, hmax, hfactor, fun hnan => ?_, hfirst, hu64⟩ hrun
    rw [nextSecs_nan hnan] at hfirst
    omega

end Reopening

/-- The default configuration with NaN as factor. -/
def nanFactor : CircuitBreakerConfig := { CircuitBreakerConfig.default with backoffFactor := .nan }

/-- `validate` accepts NaN as factor, and a circuit with this configuration
    reopens for no time at all. -/
theorem nan_reopens_for_zero :
    let tr := (operations nanFactor).trace (.new 0) (reopening nanFactor)
    (∀ display, circuitBreakerErrors display nanFactor = []) ∧
      (∃ x ∈ tr, ∃ u, Enters nanFactor "openai" x u 0) ∧
      ¬ ∀ t₀ tr s, Lib.Run (operations nanFactor) (.new t₀) tr s → BackoffPromise nanFactor tr := by
  intro tr
  have haccepted : ∀ display, circuitBreakerErrors display nanFactor = [] := by
    intro display
    rw [circuitBreakerErrors_eq_nil_iff]
    decide +kernel
  have hzero : nextSecs nanFactor nanFactor.openTtlSecs = 0 := nextSecs_nan rfl _
  refine ⟨haccepted, ?_, fun h => ?_⟩
  · have hreopens := reopening_reopens nanFactor
    dsimp only at hreopens
    rw [cappedTtl_fromSecs, hzero, Nat.zero_min] at hreopens
    exact ⟨_, .tail _ (.tail _ (.head _)), _, hreopens⟩
  · obtain ⟨x, hx, u, d, henters, hd⟩ := @reopening_enters nanFactor (by rw [hzero]; decide)
    have hbounds := (h _ _ _ (reopening_run nanFactor)).bounds x hx _ _ _ henters
    exact absurd hbounds.1 (not_le.mpr hd)

/-- Under the default configuration every run keeps the promise: its factor is two. -/
theorem backoff_promise_default :
    (∀ t₀ tr s, Lib.Run (operations .default) (.new t₀) tr s → BackoffPromise .default tr) ↔
      CircuitBreakerConfig.default.backoffFactor ≠ .nan ∧
        (CircuitBreakerConfig.default.backoffFactor = .finite 1 →
          CastKeeps CircuitBreakerConfig.default.openTtlSecs) :=
  backoff_promise_iff (circuitBreakerErrors_default fun _ => "") (by decide) (by decide +kernel)

end Melis.CircuitBreaker
