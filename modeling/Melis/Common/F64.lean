import Melis.Lib.Rounding

/-!
# `f64`

The non-finite values of `f64` and their arithmetic are those of IEEE 754. Finite
values are rationals (the sign of zero is left out) and the operations on them exact;
`nearest` rounds a result to the nearest `f64`. Where the code truncates a product to an
integer the rounding decides, and `Rounding` says whether it is made: `.nearest` is what
the code computes, `.exact` the exact arithmetic some properties are stated in.
Every `f64` value a configuration can hold is covered: `.nan` and `.inf` are legal YAML.

`usize` and `u64` values are natural numbers, and the casts `as usize` and
`as u64` drop the fraction, send NaN and negative values to `0` and `+∞` to the
largest value. They saturate at the largest value too, which the model does
not repeat for finite values: every caller compares the result with, or takes
its minimum with, a `usize` or `u64`.
-/

namespace Melis

/-- `u64::MAX`, and `usize::MAX` on the 64-bit targets of the repository. -/
def u64Max : ℕ := 2 ^ 64 - 1

/-- An `f64`, its finite values any rationals. -/
inductive F64 where
  | nan
  | negInf
  | posInf
  | finite (q : ℚ)
deriving DecidableEq

namespace F64

/-- The infinity with the sign of `q`; NaN for `0 · ∞`. -/
def infOfSign (q : ℚ) : F64 := if q = 0 then nan else if 0 < q then posInf else negInf

/-- `-x`. -/
def neg : F64 → F64
  | nan => nan
  | negInf => posInf
  | posInf => negInf
  | finite q => finite (-q)

/-- `x * y`. -/
def mul : F64 → F64 → F64
  | nan, _ => nan
  | _, nan => nan
  | finite p, finite q => finite (p * q)
  | finite p, posInf => infOfSign p
  | finite p, negInf => (infOfSign p).neg
  | posInf, finite q => infOfSign q
  | negInf, finite q => (infOfSign q).neg
  | posInf, posInf => posInf
  | posInf, negInf => negInf
  | negInf, posInf => negInf
  | negInf, negInf => posInf

/-- `x / y`, zero taken as positive. -/
def div : F64 → F64 → F64
  | nan, _ => nan
  | _, nan => nan
  | finite p, finite q => if q = 0 then infOfSign p else finite (p / q)
  | finite _, _ => finite 0
  | posInf, finite q => if q < 0 then negInf else posInf
  | negInf, finite q => if q < 0 then posInf else negInf
  | _, _ => nan

/-- `x + y`. -/
def add : F64 → F64 → F64
  | nan, _ => nan
  | _, nan => nan
  | finite p, finite q => finite (p + q)
  | posInf, negInf => nan
  | negInf, posInf => nan
  | posInf, _ => posInf
  | _, posInf => posInf
  | negInf, _ => negInf
  | _, negInf => negInf

/-- `x - y`. -/
def sub (x y : F64) : F64 := x.add y.neg

/-- `x < y`; false when either is NaN. -/
def lt : F64 → F64 → Bool
  | nan, _ => false
  | _, nan => false
  | finite p, finite q => decide (p < q)
  | negInf, negInf => false
  | negInf, _ => true
  | _, posInf => true
  | _, _ => false

/-- `x <= y`; false when either is NaN. -/
def le : F64 → F64 → Bool
  | nan, _ => false
  | _, nan => false
  | finite p, finite q => decide (p ≤ q)
  | negInf, _ => true
  | _, posInf => true
  | _, _ => false

/-- `f64::min`: a NaN is passed over. -/
def min : F64 → F64 → F64
  | nan, y => y
  | x, nan => x
  | finite p, finite q => finite (Min.min p q)
  | negInf, _ => negInf
  | _, negInf => negInf
  | posInf, y => y
  | x, posInf => x

/-- `f64::ceil`. -/
def ceil : F64 → F64
  | finite q => finite ⌈q⌉
  | x => x

/-- `f64::floor`. -/
def floor : F64 → F64
  | finite q => finite ⌊q⌋
  | x => x

@[simp] theorem lt_nan (x : F64) : x.lt nan = false := by
  match x with
  | nan => rfl
  | negInf => rfl
  | posInf => rfl
  | finite _ => rfl

@[simp] theorem mul_nan (x : F64) : x.mul nan = nan := by
  match x with
  | nan => rfl
  | negInf => rfl
  | posInf => rfl
  | finite _ => rfl

/-- `n as f64` for an unsigned integer `n`. -/
def ofNat (n : ℕ) : F64 := finite n

/-- The value of a finite number. -/
def toRat : F64 → ℚ
  | finite q => q
  | _ => 0

/-- `x as usize` and `x as u64`. -/
def toNat : F64 → ℕ
  | nan => 0
  | negInf => 0
  | posInf => u64Max
  | finite q => ⌊q⌋.toNat

/-- `(n as f64 * x) as usize` for a finite `x ≥ 0` is `⌊n · x⌋` in exact arithmetic. -/
theorem toNat_mul_finite (n : ℕ) (q : ℚ) :
    (((ofNat n).mul (finite q)).toNat) = ⌊(n : ℚ) * q⌋.toNat := rfl

/-! ## Rounding -/

/-- The digits of an `f64`. -/
def binary64 : Lib.Format where
  fractionBits := 52
  minExp := -1074
  one_normal := by decide

/-- A rational with the digits of an `f64` is infinite from `2 ^ 1024` on. -/
def ofRounded (q : ℚ) : F64 :=
  if 2 ^ 1024 ≤ q then posInf else if q ≤ -2 ^ 1024 then negInf else finite q

/-- The nearest `f64`, of two the one with an even last digit. -/
def nearest : F64 → F64
  | finite q => ofRounded (binary64.round q)
  | x => x

/-- `x` is an `f64`, as every value the code holds. -/
def Representable (x : F64) : Prop := x.nearest = x

instance : DecidablePred Representable := fun x => inferInstanceAs (Decidable (x.nearest = x))

/-- How the result of an operation is rounded: to the nearest `f64`, as the code does, or
    not at all. -/
inductive Rounding where
  | nearest
  | exact
deriving DecidableEq

namespace Rounding

/-- The result of an operation. -/
def round : Rounding → F64 → F64
  | nearest, x => x.nearest
  | exact, x => x

/-- `n as f64`. -/
def cast (A : Rounding) (n : ℕ) : F64 := A.round (.ofNat n)

/-- `x * y`. -/
def mul (A : Rounding) (x y : F64) : F64 := A.round (x.mul y)

end Rounding

theorem two_pow_64_lt_overflow : (2 : ℚ) ^ 64 < 2 ^ 1024 :=
  pow_lt_pow_right₀ one_lt_two (by decide)

theorem neg_overflow_lt_zero : (-2 ^ 1024 : ℚ) < 0 :=
  neg_neg_of_pos (pow_pos two_pos _)

theorem representable_of_finite {q : ℚ} (h : (finite q).Representable) :
    binary64.Representable q := by
  change ofRounded (binary64.round q) = finite q at h
  unfold ofRounded at h
  split_ifs at h
  exact F64.finite.inj h

theorem nearest_finite {q : ℚ} (h : binary64.Representable q) (hq : |q| < 2 ^ 1024) :
    (finite q).nearest = finite q := by
  obtain ⟨hneg, hpos⟩ := abs_lt.mp hq
  show ofRounded (binary64.round q) = finite q
  rw [show binary64.round q = q from h, ofRounded, if_neg (not_le.mpr hpos),
    if_neg (not_le.mpr hneg)]

/-- The casts of the integers of the code do not overflow. -/
theorem ofNat_nearest {n : ℕ} (h : n ≤ u64Max) :
    (ofNat n).nearest = finite (binary64.round n) := by
  have hbound : binary64.round (n : ℚ) ≤ 2 ^ 64 := by
    have hpow : binary64.round ((2 ^ 64 : ℕ) : ℚ) = 2 ^ 64 := by decide +kernel
    rw [← hpow]
    refine Lib.Format.round_mono (Nat.cast_nonneg n) (Nat.cast_le.mpr (h.trans ?_))
    decide
  have hnonneg := Lib.Format.round_nonneg (F := binary64) (Nat.cast_nonneg (α := ℚ) n)
  show ofRounded (binary64.round n) = _
  rw [ofRounded, if_neg (not_le.mpr (hbound.trans_lt two_pow_64_lt_overflow)),
    if_neg (not_le.mpr (neg_overflow_lt_zero.trans_le hnonneg))]

/-- Integers below `2 ^ 53` are not rounded. -/
theorem round_natCast {n : ℕ} (h : n < 2 ^ 53) : binary64.round (n : ℚ) = n :=
  Lib.Format.round_natCast h

theorem round_natCast_pos {n : ℕ} (h : 0 < n) : 0 < binary64.round (n : ℚ) := by
  have hone : binary64.round 1 = 1 := by decide +kernel
  have hmono := Lib.Format.round_mono (F := binary64) zero_le_one (Nat.one_le_cast.mpr h)
  rw [hone] at hmono
  exact zero_lt_one.trans_le hmono

/-- A rounded product as a `u64`. -/
theorem min_toNat_ofRounded {r : ℚ} (h : 0 ≤ r) :
    Min.min (ofRounded r).toNat u64Max = Min.min ⌊r⌋₊ u64Max := by
  unfold ofRounded
  split_ifs with hinf hneginf
  · have hmax : (u64Max : ℚ) ≤ 2 ^ 64 := by
      rw [u64Max]
      norm_num
    have hfloor : u64Max ≤ ⌊r⌋₊ :=
      Nat.le_floor ((hmax.trans two_pow_64_lt_overflow.le).trans hinf)
    rw [Nat.min_eq_right hfloor]
    exact Nat.min_self _
  · exact absurd (hneginf.trans_lt neg_overflow_lt_zero) (not_lt.mpr h)
  · rw [toNat, Int.floor_toNat]

/-- An integer is compared with a rounded product as with the product of its digits. -/
theorem ofNat_le_ofRounded {n : ℕ} {r : ℚ} (hn : n ≤ 2 ^ 64) (h : 0 ≤ r) :
    (ofNat n).le (ofRounded r) = true ↔ (n : ℚ) ≤ r := by
  have hsmall : (n : ℚ) ≤ 2 ^ 64 := by exact_mod_cast hn
  unfold ofRounded
  split_ifs with hinf hneginf
  · exact iff_of_true rfl ((hsmall.trans two_pow_64_lt_overflow.le).trans hinf)
  · exact absurd (hneginf.trans_lt neg_overflow_lt_zero) (not_lt.mpr h)
  · exact decide_eq_true_iff

end F64

end Melis
