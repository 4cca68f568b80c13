import Melis.Lib.TokenBucket
import Melis.RateLimiter.Model

/-!
# What the local rate limiter admits

The bucket of a client, against the abstract token bucket. `last_refill` is the
first clock reading of a call and the refill is computed from the second, so that
what flows in between them is credited twice: `doubleCredit`. Without it the
limiter is a token bucket.

* `Refines`: the stored bucket is an abstract one, after the admitted calls.
* `Refines.step`, `refines_run`: it is kept by every call of any client.
* `admitted_le`: the bound on the admitted calls in an interval.
* `three_in_a_second`: a run that breaks the bound without the double credit.
-/

namespace Melis.RateLimiter

/-- Time in seconds. -/
def seconds (t : Instant) : ℚ := t / 10 ^ 9

/-- The step is an admitted call of `client`. -/
def isAdmitted (client : String) (x : Lib.Step Limiter Acquire) : Bool :=
  x.event.clientId == client &&
    admits x.pre.buckets x.event.clientId x.event.config x.event.now x.event.later

/-- What flows into the bucket between the two clock readings of a call. -/
def doubleCredit (x : Lib.Step Limiter Acquire) : ℚ :=
  let bucket := x.pre.buckets.entry x.event.config x.event.clientId x.event.now
  (bucket.refilled x.event.config x.event.later).toRat -
    (bucket.refilled x.event.config x.event.now).toRat

/-- The admitted calls of `client`. -/
def admitted (client : String) (tr : List (Lib.Step Limiter Acquire)) :
    List (Lib.Step Limiter Acquire) :=
  tr.filter (isAdmitted client)

/-- Those whose `now` lies between `a` and `t`. -/
def admittedWithin (client : String) (a t : Instant) (tr : List (Lib.Step Limiter Acquire)) :
    List (Lib.Step Limiter Acquire) :=
  (admitted client tr).filter fun x => decide (a ≤ x.event.now ∧ x.event.now ≤ t)

/-- An admitted call as a spend of the abstract bucket. -/
def spendOf (x : Lib.Step Limiter Acquire) : Lib.Spend ℚ := ⟨seconds x.event.now, doubleCredit x⟩

theorem seconds_le_iff {t t' : Instant} : seconds t ≤ seconds t' ↔ t ≤ t' := by
  rw [seconds, seconds, div_le_div_iff_of_pos_right (by norm_num)]
  exact Nat.cast_le

/-! ## The abstract bucket -/

/-- The stored bucket of `client` is the abstract bucket `b`. Before it is stored, it
    is full. -/
def Stored (config : RateLimitConfig) (b : Lib.Bucket ℚ) : Option BucketState → Prop
  | none => b.level = config.burstCapacity
  | some bucket => bucket.tokens = .finite b.level ∧ seconds bucket.lastRefill = b.stamp

/-- After the spends `calls`, the bucket of `client` is an abstract one. -/
structure Refines (config : RateLimitConfig) (r : ℚ) (client : String)
    (calls : List (Lib.Spend ℚ)) (s : Limiter) (b : Lib.Bucket ℚ) : Prop where
  spends : Lib.Spends (config.burstCapacity : ℚ) r ⟨config.burstCapacity, 0⟩ calls b
  stored : Stored config b (s.buckets client)
  stamp : b.stamp ≤ seconds s.clock

section Bucket

variable {config : RateLimitConfig} {r : ℚ} {client : String} {calls : List (Lib.Spend ℚ)}
  {s : Limiter} {b : Lib.Bucket ℚ} {now t : Instant}

theorem refines_new (config : RateLimitConfig) (r : ℚ) (client : String) (t₀ : Instant) :
    Refines config r client [] (.new t₀) ⟨config.burstCapacity, 0⟩ where
  spends := .nil
  stored := rfl
  stamp := div_nonneg (Nat.cast_nonneg _) (by norm_num)

/-- The refill of a stored bucket is the level of the abstract one. -/
theorem refilled_of_stored (hrate : config.refillRate = .finite r) {bucket : BucketState}
    (htokens : bucket.tokens = .finite b.level) (hstamp : seconds bucket.lastRefill = b.stamp)
    (hle : bucket.lastRefill ≤ t) :
    bucket.refilled config t = .finite (b.at config.burstCapacity r (seconds t)) := by
  have hcast : ((t - bucket.lastRefill : ℕ) : ℚ) = (t : ℚ) - bucket.lastRefill := Nat.cast_sub hle
  have helapsed : ((t - bucket.lastRefill : ℕ) : ℚ) / 10 ^ 9 = seconds t - b.stamp := by
    rw [hcast, ← hstamp, seconds, seconds, sub_div]
  rw [BucketState.refilled, htokens, hrate, Duration.asSecsF64, helapsed]
  rfl

/-- The refill of a call, at either of its clock readings. -/
theorem Refines.refilled (h : Refines config r client calls s b)
    (hrate : config.refillRate = .finite r) (hr : 0 ≤ r) (hnow : s.clock ≤ now) (ht : now ≤ t) :
    (s.buckets.entry config client now).refilled config t =
      .finite (b.at config.burstCapacity r (seconds t)) := by
  have hstored := h.stored
  have hclock : b.stamp ≤ seconds now := h.stamp.trans (seconds_le_iff.mpr hnow)
  unfold Buckets.entry
  cases hb : s.buckets client with
  | some bucket =>
    rw [hb] at hstored
    have hle : bucket.lastRefill ≤ t := by
      rw [← seconds_le_iff, hstored.2]
      exact hclock.trans (seconds_le_iff.mpr ht)
    exact refilled_of_stored hrate hstored.1 hstored.2 hle
  | none =>
    rw [hb] at hstored
    have hfull : b.at (config.burstCapacity : ℚ) r (seconds t) = config.burstCapacity :=
      b.at_of_full hr hstored (hclock.trans (seconds_le_iff.mpr ht))
    have hnew := @refilled_of_stored config r ⟨config.burstCapacity, seconds now⟩ t hrate
      ⟨F64.ofNat config.burstCapacity, now⟩ rfl rfl ht
    rw [Option.getD_none, hnew, hfull]
    congr 1
    exact Lib.Bucket.at_of_full hr rfl (seconds_le_iff.mpr ht)

/-- The step is an admitted call exactly if the abstract bucket holds a token. -/
theorem Refines.admits_iff (h : Refines config r client calls s b)
    (hrate : config.refillRate = .finite r) (hr : 0 ≤ r) {later : Instant} (hnow : s.clock ≤ now)
    (hlater : now ≤ later) :
    admits s.buckets client config now later = true ↔
      1 ≤ b.at (config.burstCapacity : ℚ) r (seconds later) := by
  rw [RateLimiter.admits_iff, h.refilled hrate hr hnow hlater, F64.le, decide_eq_true_iff]

theorem Refines.doubleCredit_eq (h : Refines config r client calls s b)
    (hrate : config.refillRate = .finite r) (hr : 0 ≤ r) {later : Instant} (hnow : s.clock ≤ now)
    (hlater : now ≤ later) (s' : Limiter) :
    doubleCredit ⟨s, ⟨client, config, now, later⟩, s'⟩ =
      b.at (config.burstCapacity : ℚ) r (seconds later) -
        b.at (config.burstCapacity : ℚ) r (seconds now) := by
  rw [doubleCredit, h.refilled hrate hr hnow hlater,
    h.refilled hrate hr hnow le_rfl]
  rfl

/-- What another client's call leaves. -/
theorem Refines.other (h : Refines config r client calls s b) {c : Acquire}
    (henabled : limiter.enabled s c) (hclient : c.clientId ≠ client) :
    Refines config r client calls (limiter.step s c) b := by
  obtain ⟨hnow, hlater⟩ := henabled
  refine ⟨h.spends, ?_, h.stamp.trans (seconds_le_iff.mpr (hnow.trans hlater))⟩
  show Stored config b ((tryAcquire s.buckets c.clientId c.config c.now c.later).2 client)
  rw [tryAcquire_other (Ne.symm hclient)]
  exact h.stored

/-- A rejected call changes nothing: a client without a bucket is not rejected. -/
theorem Refines.rejected (h : Refines config r client calls s b)
    (hburst : 1 ≤ config.burstCapacity) (hrate : config.refillRate = .finite r) (hr : 0 ≤ r)
    {later : Instant} (hnow : s.clock ≤ now) (hlater : now ≤ later)
    (hpass : admits s.buckets client config now later = false) :
    Refines config r client calls (limiter.step s ⟨client, config, now, later⟩) b := by
  have hclock : b.stamp ≤ seconds later := h.stamp.trans (seconds_le_iff.mpr (hnow.trans hlater))
  refine ⟨h.spends, ?_, hclock⟩
  show Stored config b ((tryAcquire s.buckets client config now later).2 client)
  rw [tryAcquire_of_not_admits hpass, Buckets.entry]
  have hstored := h.stored
  cases hb : s.buckets client with
  | some bucket =>
    rw [hb] at hstored
    exact hstored
  | none =>
    -- a full bucket does not reject
    rw [hb] at hstored
    refine absurd ((h.admits_iff hrate hr hnow hlater).mpr ?_) (Bool.eq_false_iff.mp hpass)
    rw [Lib.Bucket.at_of_full hr hstored hclock]
    exact_mod_cast hburst

/-- An admitted call is a spend of the abstract bucket. -/
theorem Refines.admitted (h : Refines config r client calls s b)
    (hrate : config.refillRate = .finite r) (hr : 0 ≤ r) {later : Instant} (hnow : s.clock ≤ now)
    (hlater : now ≤ later) (hpass : admits s.buckets client config now later = true) :
    let c : Acquire := ⟨client, config, now, later⟩
    let x : Lib.Step Limiter Acquire := ⟨s, c, limiter.step s c⟩
    Refines config r client (calls ++ [spendOf x]) x.post
      (b.spend config.burstCapacity r (spendOf x)) := by
  intro c x
  have hcredit := h.doubleCredit_eq hrate hr hnow hlater x.post
  have hrise : b.at (config.burstCapacity : ℚ) r (seconds now) ≤
      b.at (config.burstCapacity : ℚ) r (seconds later) :=
    Lib.Bucket.at_mono hr (seconds_le_iff.mpr hlater)
  have hsum : b.at (config.burstCapacity : ℚ) r (seconds now) + doubleCredit x =
      b.at (config.burstCapacity : ℚ) r (seconds later) := by
    rw [hcredit]
    ring
  refine ⟨?_, ?_, ?_⟩
  · refine h.spends.snoc (h.stamp.trans (seconds_le_iff.mpr hnow)) ?_ ?_ ?_
    · show 0 ≤ doubleCredit x
      rw [hcredit]
      linarith
    · show 1 ≤ b.at (config.burstCapacity : ℚ) r (seconds now) + doubleCredit x
      rw [hsum]
      exact (h.admits_iff hrate hr hnow hlater).mp hpass
    · show b.at (config.burstCapacity : ℚ) r (seconds now) + doubleCredit x ≤ _
      rw [hsum]
      exact b.at_le_capacity _
  · show Stored config _ ((tryAcquire s.buckets client config now later).2 client)
    rw [tryAcquire_of_admits hpass, h.refilled hrate hr hnow hlater]
    refine ⟨?_, rfl⟩
    show F64.finite (_ + -1) = .finite (b.at _ r (seconds now) + doubleCredit x - 1)
    rw [hsum, sub_eq_add_neg]
  · exact seconds_le_iff.mpr hlater

/-- Every call keeps the stored bucket an abstract one: an admitted call of the
    client is a spend, and all others change nothing. -/
theorem Refines.step (h : Refines config r client calls s b) (hburst : 1 ≤ config.burstCapacity)
    (hrate : config.refillRate = .finite r) (hr : 0 ≤ r) {c : Acquire}
    (henabled : limiter.enabled s c) (hconst : c.clientId = client → c.config = config) :
    let x : Lib.Step Limiter Acquire := ⟨s, c, limiter.step s c⟩
    ∃ b', Refines config r client (calls ++ if isAdmitted client x then [spendOf x] else [])
      (limiter.step s c) b' := by
  intro x
  by_cases hclient : c.clientId = client
  · obtain ⟨hnow, hlater⟩ := henabled
    obtain ⟨clientId, config', now, later⟩ := c
    obtain rfl : clientId = client := hclient
    obtain rfl : config' = config := hconst rfl
    by_cases hpass : admits s.buckets clientId config' now later = true
    · have hx : isAdmitted clientId x = true := by simp [isAdmitted, x, hpass]
      rw [if_pos hx]
      exact ⟨_, h.admitted hrate hr hnow hlater hpass⟩
    · have hx : isAdmitted clientId x = false := by simp [isAdmitted, x, hpass]
      rw [hx, if_neg Bool.false_ne_true, List.append_nil]
      exact ⟨b, h.rejected hburst hrate hr hnow hlater (Bool.eq_false_iff.mpr hpass)⟩
  · have hx : isAdmitted client x = false := by simp [isAdmitted, x, hclient]
    rw [hx, if_neg Bool.false_ne_true, List.append_nil]
    exact ⟨b, h.other henabled hclient⟩

end Bucket

/-! ## Runs -/

section Runs

variable {config : RateLimitConfig} {r : ℚ} {client : String} {s : Limiter} {t₀ : Instant}
  {tr : List (Lib.Step Limiter Acquire)}

theorem spends_snoc (client : String) (tr : List (Lib.Step Limiter Acquire))
    (x : Lib.Step Limiter Acquire) :
    (admitted client (tr ++ [x])).map spendOf =
      (admitted client tr).map spendOf ++ if isAdmitted client x then [spendOf x] else [] := by
  rw [admitted, List.filter_append, List.map_append, ← admitted]
  cases h : isAdmitted client x <;> simp [h]

/-- The admitted calls of a client are the spends of an abstract bucket. -/
theorem refines_run (hburst : 1 ≤ config.burstCapacity) (hrate : config.refillRate = .finite r)
    (hr : 0 ≤ r) (hconst : ∀ x ∈ tr, x.event.clientId = client → x.event.config = config)
    (hrun : Lib.Run limiter (.new t₀) tr s) :
    ∃ b, Refines config r client ((admitted client tr).map spendOf) s b := by
  induction hrun with
  | nil => exact ⟨_, refines_new config r client t₀⟩
  | @snoc tr s c hrun henabled ih =>
    obtain ⟨b, h⟩ := ih fun x hx => hconst x (List.mem_append_left _ hx)
    obtain ⟨b', h'⟩ := h.step hburst hrate hr henabled
      (hconst _ (List.mem_append_right _ List.mem_cons_self))
    exact ⟨b', (spends_snoc client tr _).symm ▸ h'⟩

theorem spendsWithin_map (a t : Instant) (calls : List (Lib.Step Limiter Acquire)) :
    Lib.spendsWithin (seconds a) (seconds t) (calls.map spendOf) =
      (calls.filter fun x => decide (a ≤ x.event.now ∧ x.event.now ≤ t)).map spendOf := by
  rw [Lib.spendsWithin, List.filter_map]
  refine congrArg _ (List.filter_congr fun x _ => ?_)
  exact decide_eq_decide.mpr (and_congr seconds_le_iff seconds_le_iff)

theorem extraOf_map (calls : List (Lib.Step Limiter Acquire)) :
    Lib.extraOf (calls.map spendOf) = (calls.map doubleCredit).sum := by
  rw [Lib.extraOf, List.map_map]
  rfl

theorem seconds_add (a T : Instant) : seconds (a + T) - seconds a = seconds T := by
  rw [seconds, seconds, seconds, ← sub_div, Nat.cast_add, add_sub_cancel_left]

/-- **The bound.** In every run of calls by any clients, for a client with a
    constant configuration (a burst of one or more and a positive rate): the stored
    tokens lie between zero and the burst; in an interval of length `T` no more
    calls are admitted than the burst, the inflow over `T` and what was credited
    twice; and so, if nothing was credited twice at the admitted calls, no more
    than the burst and the inflow. -/
theorem admitted_le (hburst : 1 ≤ config.burstCapacity) (hrate : config.refillRate = .finite r)
    (hr : 0 < r) (hconst : ∀ x ∈ tr, x.event.clientId = client → x.event.config = config)
    (hrun : Lib.Run limiter (.new t₀) tr s) :
    (∀ bucket, s.buckets client = some bucket →
      ∃ tokens, bucket.tokens = .finite tokens ∧ 0 ≤ tokens ∧ tokens ≤ config.burstCapacity) ∧
    (∀ a T, ((admittedWithin client a (a + T) tr).length : ℚ) ≤
      config.burstCapacity + r * seconds T +
        ((admittedWithin client a (a + T) tr).map doubleCredit).sum) ∧
    ((∀ x ∈ tr, isAdmitted client x = true → doubleCredit x = 0) →
      ∀ a T, ((admittedWithin client a (a + T) tr).length : ℚ) ≤
        config.burstCapacity + r * seconds T) := by
  obtain ⟨b, h⟩ := refines_run hburst hrate hr.le hconst hrun
  have hcapacity : (0 : ℚ) ≤ config.burstCapacity := Nat.cast_nonneg _
  have hbound : ∀ a T, ((admittedWithin client a (a + T) tr).length : ℚ) ≤
      config.burstCapacity + r * seconds T +
        ((admittedWithin client a (a + T) tr).map doubleCredit).sum := by
    intro a T
    have hle := h.spends.length_le hr.le (seconds_le_iff.mpr (Nat.le_add_right a T)) hcapacity
    rw [spendsWithin_map, List.length_map, extraOf_map, seconds_add, mul_comm] at hle
    exact hle
  refine ⟨fun bucket hb => ?_, hbound, fun hnone a T => ?_⟩
  · have hstored := h.stored
    rw [hb] at hstored
    exact ⟨b.level, hstored.1, h.spends.level_mem hcapacity le_rfl⟩
  · have hzero : ((admittedWithin client a (a + T) tr).map doubleCredit).sum = 0 := by
      refine List.sum_eq_zero fun credit hcredit => ?_
      obtain ⟨x, hx, rfl⟩ := List.mem_map.mp hcredit
      obtain ⟨hx, -⟩ := List.mem_filter.mp hx
      obtain ⟨hx, hadmitted⟩ := List.mem_filter.mp hx
      exact hnone x hx hadmitted
    have hle := hbound a T
    rw [hzero, add_zero] at hle
    exact hle

end Runs

/-! ## Three calls in a second -/

/-- One token, and one more each second. -/
def onePerSecond : RateLimitConfig := ⟨1, .finite 1⟩

/-- A call at the start; a call that reads the clock at the start and again a second
    later; and a call then. -/
def threeCalls : List Acquire :=
  let second := Duration.fromSecs 1
  [⟨"a", onePerSecond, 0, 0⟩, ⟨"a", onePerSecond, 0, second⟩, ⟨"a", onePerSecond, second, second⟩]

theorem threeCalls_run :
    Lib.Run limiter (.new 0) (limiter.trace (.new 0) threeCalls)
      (threeCalls.foldl limiter.step (.new 0)) := by
  refine Lib.run_trace limiter (.new 0) threeCalls fun x hx => ?_
  fin_cases hx <;> exact ⟨Nat.le_refl _, by decide⟩

/-- All three calls are admitted within one second: one more than the burst and the
    inflow. -/
theorem three_in_a_second :
    let tr := limiter.trace (.new 0) threeCalls
    Lib.Run limiter (.new 0) tr (threeCalls.foldl limiter.step (.new 0)) ∧
      (admittedWithin "a" 0 (0 + Duration.fromSecs 1) tr).length = 3 ∧
      ¬ ∀ a T, ((admittedWithin "a" a (a + T) tr).length : ℚ) ≤
        onePerSecond.burstCapacity + 1 * seconds T := by
  intro tr
  have hlength : (admittedWithin "a" 0 (0 + Duration.fromSecs 1) tr).length = 3 := by
    decide +kernel
  refine ⟨threeCalls_run, hlength, fun h => ?_⟩
  have hle := h 0 (Duration.fromSecs 1)
  rw [hlength] at hle
  exact absurd hle (by decide +kernel)

/-- The first and the last of these calls. -/
def twoCalls : List Acquire :=
  [⟨"a", onePerSecond, 0, 0⟩, ⟨"a", onePerSecond, Duration.fromSecs 1, Duration.fromSecs 1⟩]

/-- Without time between the readings of a call, no more calls are admitted in the
    second than the burst and the inflow. -/
theorem admitted_le_twoCalls :
    let tr := limiter.trace (.new 0) twoCalls
    ((admittedWithin "a" 0 (0 + Duration.fromSecs 1) tr).length : ℚ) ≤
      onePerSecond.burstCapacity + 1 * seconds (Duration.fromSecs 1) := by
  intro tr
  have hrun := Lib.run_trace limiter (.new 0) twoCalls (by
    intro x hx
    fin_cases hx <;> exact ⟨by decide, Nat.le_refl _⟩)
  have hcredit : ∀ x ∈ limiter.trace (.new 0) twoCalls,
      isAdmitted "a" x = true → doubleCredit x = 0 := by
    intro x hx _
    fin_cases hx <;> exact sub_self _
  refine (@admitted_le onePerSecond 1 "a" _ _ _ (by decide) rfl one_pos ?_ hrun).2.2 hcredit 0 _
  intro x hx _
  fin_cases hx <;> rfl

end Melis.RateLimiter
