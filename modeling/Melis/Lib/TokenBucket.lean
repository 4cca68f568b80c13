import Mathlib

/-!
# Token buckets

A bucket of a given capacity is filled at a constant rate and loses one token with
every spend. A spend at `now` may be granted some `extra` credit beyond what has
flowed in by then, within the capacity.

* `Bucket.at_mono`: the level does not fall between spends.
* `Bucket.one_le_at_iff`: how long an empty bucket takes until it holds a token.
* `Spends.level_mem`: the level stays between zero and the capacity.
* `Spends.potential`: the spends since `a`, with the level, are paid by the
  capacity, the inflow since `a` and the extra credit.
* `Spends.length_le`: how many spends fall into an interval.
-/

namespace Melis.Lib

variable {𝕜 : Type*} [Field 𝕜] [LinearOrder 𝕜]

/-- The level of a bucket when it was last spent from, and the time of that. -/
structure Bucket (𝕜 : Type*) where
  level : 𝕜
  stamp : 𝕜

/-- The level at time `t`. -/
def Bucket.at (capacity rate : 𝕜) (b : Bucket 𝕜) (t : 𝕜) : 𝕜 :=
  min capacity (b.level + (t - b.stamp) * rate)

/-- A spend, with the extra credit it was granted. -/
structure Spend (𝕜 : Type*) where
  now : 𝕜
  extra : 𝕜

/-- The bucket after a spend. -/
def Bucket.spend (capacity rate : 𝕜) (b : Bucket 𝕜) (c : Spend 𝕜) : Bucket 𝕜 where
  level := b.at capacity rate c.now + c.extra - 1
  stamp := c.now

/-- The spends `calls`, one after another, lead from `b₀` to the last argument. -/
inductive Spends (capacity rate : 𝕜) (b₀ : Bucket 𝕜) : List (Spend 𝕜) → Bucket 𝕜 → Prop
  | nil : Spends capacity rate b₀ [] b₀
  | snoc {calls : List (Spend 𝕜)} {b : Bucket 𝕜} {c : Spend 𝕜} :
      Spends capacity rate b₀ calls b → b.stamp ≤ c.now → 0 ≤ c.extra →
      1 ≤ b.at capacity rate c.now + c.extra →
      b.at capacity rate c.now + c.extra ≤ capacity →
      Spends capacity rate b₀ (calls ++ [c]) (b.spend capacity rate c)

/-- The spends from time `a` on. -/
def spendsSince (a : 𝕜) (calls : List (Spend 𝕜)) : List (Spend 𝕜) :=
  calls.filter fun c => decide (a ≤ c.now)

/-- The spends between `a` and `t`. -/
def spendsWithin (a t : 𝕜) (calls : List (Spend 𝕜)) : List (Spend 𝕜) :=
  calls.filter fun c => decide (a ≤ c.now ∧ c.now ≤ t)

/-- The extra credit of some spends. -/
def extraOf (calls : List (Spend 𝕜)) : 𝕜 := (calls.map Spend.extra).sum

variable {capacity rate : 𝕜} {b b₀ : Bucket 𝕜} {calls : List (Spend 𝕜)} {a t t' : 𝕜}

theorem Bucket.at_le_capacity (b : Bucket 𝕜) (t : 𝕜) : b.at capacity rate t ≤ capacity :=
  min_le_left _ _

/-- The spends up to the bucket's stamp come before it. -/
theorem Spends.now_le_stamp (h : Spends capacity rate b₀ calls b) :
    ∀ c ∈ calls, c.now ≤ b.stamp := by
  induction h with
  | nil => simp
  | @snoc calls b c _ hstamp hextra hone hcap ih =>
    intro c' hc'
    rcases List.mem_append.mp hc' with hc' | hc'
    · exact (ih c' hc').trans hstamp
    · rw [List.mem_singleton.mp hc']
      exact le_rfl

variable [IsStrictOrderedRing 𝕜]

theorem Bucket.at_mono (hrate : 0 ≤ rate) (h : t ≤ t') :
    b.at capacity rate t ≤ b.at capacity rate t' := by
  refine min_le_min_left _ ?_
  have hdiff : t - b.stamp ≤ t' - b.stamp := by linarith
  have := mul_le_mul_of_nonneg_right hdiff hrate
  linarith

/-- A full bucket is full at any later time. -/
theorem Bucket.at_of_full (hrate : 0 ≤ rate) (hfull : b.level = capacity) (h : b.stamp ≤ t) :
    b.at capacity rate t = capacity := by
  have hflow : 0 ≤ (t - b.stamp) * rate := mul_nonneg (sub_nonneg.mpr h) hrate
  rw [Bucket.at, hfull]
  exact min_eq_left (by linarith)

/-- Below one token, the bucket holds one as soon as the rest of it has flowed in. -/
theorem Bucket.one_le_at_iff (hrate : 0 < rate) (hcapacity : 1 ≤ capacity)
    (hlow : b.at capacity rate t < 1) :
    1 ≤ b.at capacity rate t' ↔ (1 - b.at capacity rate t) / rate ≤ t' - t := by
  have hflow : b.at capacity rate t = b.level + (t - b.stamp) * rate := by
    refine min_eq_right (le_of_not_gt fun hfull => ?_)
    rw [Bucket.at, min_eq_left hfull.le] at hlow
    exact absurd hcapacity (not_le.mpr hlow)
  have hsplit : (t' - b.stamp) * rate = (t - b.stamp) * rate + (t' - t) * rate := by ring
  rw [div_le_iff₀ hrate, hflow, Bucket.at, le_min_iff, and_iff_right hcapacity, hsplit]
  constructor <;> intro h <;> linarith

namespace Spends

/-- The level stays between zero and the capacity. -/
theorem level_mem (h : Spends capacity rate b₀ calls b) (h₀ : 0 ≤ b₀.level)
    (h₀' : b₀.level ≤ capacity) : 0 ≤ b.level ∧ b.level ≤ capacity := by
  induction h with
  | nil => exact ⟨h₀, h₀'⟩
  | @snoc calls b c _ hstamp hextra hone hcap ih =>
    show 0 ≤ b.at capacity rate c.now + c.extra - 1 ∧
      b.at capacity rate c.now + c.extra - 1 ≤ capacity
    constructor
    · linarith
    · linarith

/-- **Potential.** The spends since `a` and the level together are paid by the
    capacity, the inflow since `a` and the extra credit. -/
theorem potential (h : Spends capacity rate b₀ calls b) (hrate : 0 ≤ rate) (ha : a ≤ t)
    (ht : b.stamp ≤ t) :
    ((spendsSince a calls).length : 𝕜) + b.at capacity rate t ≤
      capacity + (t - a) * rate + extraOf (spendsSince a calls) := by
  induction h generalizing t with
  | nil =>
    have hflow : 0 ≤ (t - a) * rate := mul_nonneg (sub_nonneg.mpr ha) hrate
    have hcap : b₀.at capacity rate t ≤ capacity := b₀.at_le_capacity t
    simp only [spendsSince, List.filter_nil, List.length_nil, Nat.cast_zero, extraOf, List.map_nil,
      List.sum_nil]
    linarith
  | @snoc calls b c hcalls hstamp hextra hone hcap ih =>
    rcases le_or_gt a c.now with hc | hc
    · have hsplit : spendsSince a (calls ++ [c]) = spendsSince a calls ++ [c] := by
        simp [spendsSince, List.filter_append, hc]
      have hbefore := ih hc hstamp
      have hrise : (b.spend capacity rate c).at capacity rate t ≤
          (b.at capacity rate c.now + c.extra - 1) + (t - c.now) * rate := min_le_right _ _
      have hflow : (c.now - a) * rate + (t - c.now) * rate = (t - a) * rate := by ring
      rw [hsplit, extraOf, List.map_append, List.sum_append, List.length_append, ← extraOf]
      simp only [List.length_singleton, Nat.cast_add, Nat.cast_one, List.map_singleton,
        List.sum_singleton]
      linarith
    · -- no spend so far is as late as `a`
      have hnone : spendsSince a (calls ++ [c]) = [] := by
        refine List.filter_eq_nil_iff.mpr fun c' hc' => ?_
        have hle := (hcalls.snoc hstamp hextra hone hcap).now_le_stamp c' hc'
        simpa using lt_of_le_of_lt hle hc
      have hflow : 0 ≤ (t - a) * rate := mul_nonneg (sub_nonneg.mpr ha) hrate
      have hcap : (b.spend capacity rate c).at capacity rate t ≤ capacity :=
        (b.spend capacity rate c).at_le_capacity t
      simp only [hnone, List.length_nil, Nat.cast_zero, extraOf, List.map_nil, List.sum_nil]
      linarith

/-- The spends in an interval are paid by the capacity, the inflow over the
    interval and the extra credit. -/
theorem length_le (h : Spends capacity rate b₀ calls b) (hrate : 0 ≤ rate) (hat : a ≤ t)
    (hcapacity : 0 ≤ capacity) :
    ((spendsWithin a t calls).length : 𝕜) ≤
      capacity + (t - a) * rate + extraOf (spendsWithin a t calls) := by
  induction h with
  | nil =>
    have hflow : 0 ≤ (t - a) * rate := mul_nonneg (sub_nonneg.mpr hat) hrate
    simp only [spendsWithin, List.filter_nil, List.length_nil, Nat.cast_zero, extraOf,
      List.map_nil, List.sum_nil]
    linarith
  | @snoc calls b c hcalls hstamp hextra hone hcap ih =>
    by_cases hc : a ≤ c.now ∧ c.now ≤ t
    · -- every earlier spend since `a` lies in the interval
      have hwithin : spendsWithin a t (calls ++ [c]) = spendsSince a calls ++ [c] := by
        have hsame : spendsWithin a t calls = spendsSince a calls := by
          refine List.filter_congr fun c' hc' => ?_
          have hle := ((hcalls.now_le_stamp c' hc').trans hstamp).trans hc.2
          simp [hle]
        rw [← hsame]
        simp [spendsWithin, List.filter_append, hc]
      have hpotential := hcalls.potential hrate hc.1 hstamp
      have hflow : (c.now - a) * rate ≤ (t - a) * rate :=
        mul_le_mul_of_nonneg_right (sub_le_sub_right hc.2 a) hrate
      rw [hwithin, extraOf, List.map_append, List.sum_append, List.length_append, ← extraOf]
      simp only [List.length_singleton, Nat.cast_add, Nat.cast_one, List.map_singleton,
        List.sum_singleton]
      linarith
    · have hsame : spendsWithin a t (calls ++ [c]) = spendsWithin a t calls := by
        simp [spendsWithin, List.filter_append, hc]
      rw [hsame]
      exact ih

end Spends

end Melis.Lib
