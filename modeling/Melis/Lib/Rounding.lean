import Mathlib

/-!
# Rounding to the nearest, ties to even

A binary floating-point format with `fractionBits` digits after the leading one and the
least exponent `minExp`, without a greatest one. A rational is rounded to a multiple of
its `quantum`, the weight of the last digit at its magnitude.

* `le_roundEven_iff`: from where on a rational is rounded to `n` or more.
* `round_mono`: rounding keeps the order of nonnegative numbers.
* `zpow_le_round`: a power of two is not rounded past.
* `succ_le_round_mul_iff`: when `n * q` is rounded to `n + 1` or more.
* `succ_le_round_mul`: from `2 ^ fractionBits` on, a representable factor above one always
  brings a number further, though the number is rounded first.
-/

namespace Melis.Lib

/-! ## Integers -/

/-- The nearest integer, of two the even one. -/
def roundEven (q : ℚ) : ℤ :=
  if q - ⌊q⌋ < 1 / 2 ∨ q - ⌊q⌋ = 1 / 2 ∧ Even ⌊q⌋ then ⌊q⌋ else ⌊q⌋ + 1

theorem le_roundEven_iff {n : ℤ} {q : ℚ} :
    n ≤ roundEven q ↔ (n : ℚ) - 1 / 2 < q ∨ (n : ℚ) - 1 / 2 = q ∧ Even n := by
  have hfloor := Int.floor_le q
  have hlt := Int.lt_floor_add_one q
  unfold roundEven
  generalize ⌊q⌋ = m at hfloor hlt ⊢
  rcases lt_trichotomy n (m + 1) with hbelow | rfl | habove
  · -- below the floor, or at it
    have hle : n ≤ m := by omega
    have hcast : (n : ℚ) ≤ m := by exact_mod_cast hle
    refine iff_of_true ?_ (.inl (by linarith))
    split_ifs <;> omega
  · -- the next integer: the half decides
    have hparity : Even (m + 1) ↔ ¬ Even m := Int.even_add_one
    push_cast
    split_ifs with h
    · refine iff_of_false (by omega) ?_
      rintro (hq | ⟨hq, heven⟩)
      · rcases h with h | ⟨h, -⟩ <;> linarith
      · rcases h with h | ⟨-, hm⟩
        · linarith
        · exact hparity.mp heven hm
    · refine iff_of_true le_rfl ?_
      rw [not_or, not_lt, not_and] at h
      rcases h.1.lt_or_eq with hq | hq
      · exact .inl (by linarith)
      · exact .inr ⟨by linarith, hparity.mpr (h.2 hq.symm)⟩
  · have hcast : (m : ℚ) + 2 ≤ n := by exact_mod_cast (by omega : m + 2 ≤ n)
    refine iff_of_false ?_ ?_
    · split_ifs <;> omega
    · rintro (hq | ⟨hq, -⟩) <;> linarith

theorem roundEven_mono {a b : ℚ} (h : a ≤ b) : roundEven a ≤ roundEven b := by
  rw [le_roundEven_iff]
  rcases le_roundEven_iff.mp (le_refl (roundEven a)) with hlt | ⟨heq, heven⟩
  · exact .inl (hlt.trans_le h)
  · rcases h.lt_or_eq with hlt | rfl
    · exact .inl (heq.trans_lt hlt)
    · exact .inr ⟨heq, heven⟩

theorem intCast_le_roundEven {n : ℤ} {q : ℚ} (h : (n : ℚ) ≤ q) : n ≤ roundEven q :=
  le_roundEven_iff.mpr (.inl (by linarith))

theorem roundEven_intCast (n : ℤ) : roundEven n = n := by
  refine le_antisymm (Int.lt_add_one_iff.mp (lt_of_not_ge fun h => ?_))
    (intCast_le_roundEven le_rfl)
  rw [le_roundEven_iff] at h
  push_cast at h
  rcases h with h | ⟨h, -⟩ <;> linarith

/-- Rounding down takes away at most a half. -/
theorem le_roundEven_add_half (q : ℚ) : q ≤ (roundEven q : ℚ) + 1 / 2 := by
  by_contra h
  have hlt : roundEven q + 1 ≤ roundEven q :=
    le_roundEven_iff.mpr (.inl (by push_cast; linarith))
  omega

/-! ## Formats -/

/-- A binary floating-point format in which `1` has all its digits. -/
structure Format where
  fractionBits : ℕ
  minExp : ℤ
  one_normal : minExp ≤ -fractionBits

namespace Format

variable (F : Format)

/-- The exponent of the last digit at the magnitude of `q`. -/
def exponent (q : ℚ) : ℤ := max (Int.log 2 |q| - F.fractionBits) F.minExp

/-- The weight of the last digit at the magnitude of `q`. -/
def quantum (q : ℚ) : ℚ := 2 ^ F.exponent q

/-- The nearest number of the format, of two the one with an even last digit. -/
def round (q : ℚ) : ℚ := roundEven (q / F.quantum q) * F.quantum q

/-- `q` is a number of the format. -/
def Representable (q : ℚ) : Prop := F.round q = q

variable {F} {a b q : ℚ}

theorem quantum_pos (F : Format) (q : ℚ) : 0 < F.quantum q := zpow_pos two_pos _

theorem exponent_mono (ha : 0 < a) (h : a ≤ b) : F.exponent a ≤ F.exponent b := by
  rw [exponent, exponent, abs_of_pos ha, abs_of_pos (ha.trans_le h)]
  exact max_le_max_right _ (sub_le_sub_right (Int.log_mono_right ha h) _)

theorem quantum_mono (ha : 0 < a) (h : a ≤ b) : F.quantum a ≤ F.quantum b :=
  zpow_le_zpow_right₀ one_le_two (exponent_mono ha h)

/-- From one on, a number has all its digits. -/
theorem exponent_of_one_le (h : 1 ≤ q) : F.exponent q = Int.log 2 q - F.fractionBits := by
  have hlog : 0 ≤ Int.log 2 q := by
    rw [← Int.zpow_le_iff_le_log one_lt_two (zero_lt_one.trans_le h), zpow_zero]
    exact h
  have := F.one_normal
  rw [exponent, abs_of_pos (zero_lt_one.trans_le h), max_eq_left]
  omega

/-! ## Multiples of the quantum -/

theorem multiple_le_round {k : ℤ} (h : k * F.quantum q ≤ q) : k * F.quantum q ≤ F.round q := by
  have hk : k ≤ roundEven (q / F.quantum q) :=
    intCast_le_roundEven ((le_div_iff₀ (F.quantum_pos q)).mpr h)
  exact mul_le_mul_of_nonneg_right (by exact_mod_cast hk) (F.quantum_pos q).le

theorem round_le_multiple {k : ℤ} (h : q ≤ k * F.quantum q) : F.round q ≤ k * F.quantum q := by
  have hk : roundEven (q / F.quantum q) ≤ k := by
    rw [← roundEven_intCast k]
    exact roundEven_mono ((div_le_iff₀ (F.quantum_pos q)).mpr h)
  exact mul_le_mul_of_nonneg_right (by exact_mod_cast hk) (F.quantum_pos q).le

theorem representable_of_multiple {k : ℤ} (h : q = k * F.quantum q) : F.Representable q :=
  le_antisymm ((round_le_multiple h.le).trans_eq h.symm) (h.trans_le (multiple_le_round h.ge))

theorem round_zero (F : Format) : F.round 0 = 0 := by
  rw [round, zero_div, show (0 : ℚ) = ((0 : ℤ) : ℚ) from Int.cast_zero.symm, roundEven_intCast,
    Int.cast_zero, zero_mul]

theorem round_nonneg (h : 0 ≤ q) : 0 ≤ F.round q := by
  have := multiple_le_round (F := F) (q := q) (k := 0) (by simpa using h)
  simpa using this

/-- A power of two, as a multiple of a smaller one. -/
theorem zpow_eq_multiple {e e' : ℤ} (h : e ≤ e') :
    (2 : ℚ) ^ e' = ((2 ^ (e' - e).toNat : ℤ) : ℚ) * 2 ^ e := by
  have hsum : e' = (e' - e).toNat + e := by omega
  push_cast
  conv_lhs => rw [hsum, zpow_add₀ two_ne_zero, zpow_natCast]

theorem zpow_le_round {e : ℤ} (he : F.exponent q ≤ e) (h : 2 ^ e ≤ q) : 2 ^ e ≤ F.round q := by
  rw [zpow_eq_multiple he] at h ⊢
  exact multiple_le_round h

theorem round_le_zpow {e : ℤ} (he : F.exponent q ≤ e) (h : q ≤ 2 ^ e) : F.round q ≤ 2 ^ e := by
  rw [zpow_eq_multiple he] at h ⊢
  exact round_le_multiple h

/-- Rounding keeps the order. -/
theorem round_mono (ha : 0 ≤ a) (h : a ≤ b) : F.round a ≤ F.round b := by
  rcases ha.eq_or_lt with rfl | ha
  · rw [round_zero]
    exact round_nonneg h
  rcases (exponent_mono (F := F) ha h).eq_or_lt with heq | hlt
  · have hquantum : F.quantum a = F.quantum b := by rw [quantum, quantum, heq]
    rw [round, round, ← hquantum]
    refine mul_le_mul_of_nonneg_right ?_ (F.quantum_pos a).le
    exact_mod_cast roundEven_mono (div_le_div_of_nonneg_right h (F.quantum_pos a).le)
  · -- the leading digit of `b` lies between
    have hb := ha.trans_le h
    have hlog : Int.log 2 a < Int.log 2 b ∧ F.exponent b ≤ Int.log 2 b := by
      rw [exponent, exponent, abs_of_pos ha, abs_of_pos hb] at hlt
      rw [exponent, abs_of_pos hb]
      omega
    refine (round_le_zpow (hlt.le.trans hlog.2) ?_).trans
      (zpow_le_round hlog.2 (Int.zpow_log_le_self one_lt_two hb))
    exact (Int.lt_zpow_iff_log_lt one_lt_two ha).mpr hlog.1 |>.le

/-! ## Natural numbers -/

/-- Numbers of at most `fractionBits + 1` digits are numbers of the format. -/
theorem representable_mul_zpow {n : ℕ} {e : ℤ} (h : n < 2 ^ (F.fractionBits + 1))
    (he : F.minExp ≤ e) : F.Representable (n * 2 ^ e) := by
  rcases Nat.eq_zero_or_pos n with rfl | hn
  · rw [Nat.cast_zero, zero_mul]
    exact round_zero F
  have hpos : (0 : ℚ) < n * 2 ^ e := mul_pos (by exact_mod_cast hn) (zpow_pos two_pos e)
  have hlog : Int.log 2 ((n : ℚ) * 2 ^ e) < (F.fractionBits + 1 : ℕ) + e := by
    rw [← Int.lt_zpow_iff_log_lt one_lt_two hpos]
    push_cast [zpow_add₀ (two_ne_zero (α := ℚ)), zpow_natCast]
    refine mul_lt_mul_of_pos_right ?_ (zpow_pos two_pos e)
    exact_mod_cast h
  have hexp : F.exponent ((n : ℚ) * 2 ^ e) ≤ e := by
    rw [exponent, abs_of_pos hpos]
    push_cast at hlog
    omega
  refine representable_of_multiple (k := n * 2 ^ (e - F.exponent ((n : ℚ) * 2 ^ e)).toNat) ?_
  conv_lhs => rw [zpow_eq_multiple hexp]
  rw [quantum, Int.cast_mul, mul_assoc, Int.cast_natCast]

theorem round_natCast {n : ℕ} (h : n < 2 ^ (F.fractionBits + 1)) : F.round n = n := by
  have hzero : F.minExp ≤ 0 := by
    have := F.one_normal
    omega
  have hrep := representable_mul_zpow h hzero
  rwa [zpow_zero, mul_one] at hrep

/-- The next power of two after `n`. -/
theorem succ_le_zpow_log_succ (n : ℕ) : (n : ℚ) + 1 ≤ 2 ^ (Int.log 2 (n : ℚ) + 1) := by
  have hlt := Int.lt_zpow_succ_log_self (one_lt_two (α := ℕ)) (n : ℚ)
  rw [Int.log_natCast] at hlt ⊢
  exact_mod_cast hlt

/-- Between `a` and the next power of two the quantum is that of `a`. -/
theorem quantum_eq (ha : 1 ≤ a) (h : a ≤ q) (hlt : q < 2 ^ (Int.log 2 a + 1)) :
    F.quantum q = F.quantum a := by
  have hpos := zero_lt_one.trans_le ha
  have hlog : Int.log 2 q = Int.log 2 a := by
    refine le_antisymm ?_ (Int.log_mono_right hpos h)
    exact Int.lt_add_one_iff.mp ((Int.lt_zpow_iff_log_lt one_lt_two (hpos.trans_le h)).mp hlt)
  rw [quantum, quantum, exponent_of_one_le ha, exponent_of_one_le (ha.trans h), hlog]

/-- The next power of two is not rounded past. -/
theorem zpow_log_succ_le_round (ha : 1 ≤ a) (h : 2 ^ (Int.log 2 a + 1) ≤ q) :
    2 ^ (Int.log 2 a + 1) ≤ F.round q := by
  have hpos := zero_lt_one.trans_le ha
  have haq : a ≤ q := (Int.lt_zpow_succ_log_self one_lt_two a).le.trans h
  have hq : 1 ≤ q := ha.trans haq
  -- the leading digit of `q` is at least as high
  have hlog : Int.log 2 a + 1 ≤ Int.log 2 q :=
    (Int.zpow_le_iff_le_log one_lt_two (hpos.trans_le haq)).mp h
  refine (zpow_le_zpow_right₀ one_le_two hlog).trans (zpow_le_round ?_
    (Int.zpow_log_le_self one_lt_two (hpos.trans_le haq)))
  rw [exponent_of_one_le hq]
  omega

/-! ## Products -/

/-- When `n * q` is rounded to the next number or beyond: half a quantum short of it
    suffices, for the next number has an even last digit. -/
theorem succ_le_round_mul_iff {n : ℕ} (hn : 0 < n) (hlt : n < 2 ^ F.fractionBits) (hq : 1 ≤ q) :
    (n : ℚ) + 1 ≤ F.round (n * q) ↔ 1 - F.quantum n / 2 ≤ n * (q - 1) := by
  have hone : (1 : ℚ) ≤ n := by exact_mod_cast hn
  have hmul : (n : ℚ) ≤ n * q := le_mul_of_one_le_right (by linarith) hq
  have hpos := F.quantum_pos (n : ℚ)
  rcases lt_or_ge (n * q) (2 ^ (Int.log 2 (n : ℚ) + 1)) with hnear | hfar
  · -- the last digit of the product weighs less than one, and the next number is a multiple
    have hexp : F.exponent (n : ℚ) ≤ -1 := by
      have := Nat.log_lt_of_lt_pow hn.ne' hlt
      rw [exponent_of_one_le hone, Int.log_natCast]
      omega
    obtain ⟨j, hj⟩ : ∃ j, (0 - F.exponent (n : ℚ)).toNat = j + 1 :=
      Nat.exists_eq_succ_of_ne_zero (by omega)
    have hunit := zpow_eq_multiple (show F.exponent (n : ℚ) ≤ 0 by omega)
    rw [zpow_zero, hj] at hunit
    set k : ℤ := (n + 1) * 2 ^ (j + 1) with hk
    have hnext : (n : ℚ) + 1 = k * F.quantum n := by
      rw [hk, quantum, Int.cast_mul, mul_assoc, ← hunit, mul_one]
      push_cast
      rfl
    have heven : Even k := ⟨(n + 1) * 2 ^ j, by rw [hk, pow_succ]; ring⟩
    rw [round, quantum_eq hone hmul hnear, hnext, mul_le_mul_iff_left₀ hpos, Int.cast_le,
      le_roundEven_iff, and_iff_left heven, ← le_iff_lt_or_eq, le_div_iff₀ hpos, sub_mul, ← hnext]
    constructor <;> intro h <;> linarith
  · -- the product reaches the next power of two
    have hround := zpow_log_succ_le_round hone hfar (F := F)
    exact iff_of_true ((succ_le_zpow_log_succ n).trans hround)
      (by linarith [succ_le_zpow_log_succ n])

/-- A representable number above one is at least a quantum above it. -/
theorem one_add_le_of_representable (h : F.Representable q) (hq : 1 < q) :
    1 + 2 ^ (-F.fractionBits : ℤ) ≤ q := by
  have hexp : (-F.fractionBits : ℤ) ≤ F.exponent q := by
    have hlog := (Int.zpow_le_iff_le_log one_lt_two (zero_lt_one.trans hq)).mp
      (show ((2 : ℕ) : ℚ) ^ (0 : ℤ) ≤ q by simpa using hq.le)
    rw [exponent_of_one_le hq.le]
    omega
  -- both are multiples of the quantum at one
  obtain ⟨k, hk⟩ : ∃ k : ℤ, q = k * 2 ^ (-F.fractionBits : ℤ) := by
    have hmultiple : q = roundEven (q / F.quantum q) * 2 ^ F.exponent q := h.symm
    generalize roundEven (q / F.quantum q) = r, F.exponent q = e at hmultiple hexp
    exact ⟨r * 2 ^ (e - -F.fractionBits).toNat, by
      rw [hmultiple, zpow_eq_multiple hexp, Int.cast_mul, mul_assoc]⟩
  have hpos : (0 : ℚ) < 2 ^ (-F.fractionBits : ℤ) := zpow_pos two_pos _
  have hunit := zpow_eq_multiple (show (-F.fractionBits : ℤ) ≤ 0 by omega)
  rw [zpow_zero] at hunit
  rw [hunit] at hq ⊢
  rw [hk] at hq ⊢
  have hlt := lt_of_mul_lt_mul_right hq hpos.le
  have hsucc : (2 ^ (0 - -F.fractionBits : ℤ).toNat : ℤ) + 1 ≤ k := by exact_mod_cast hlt
  calc _ = (((2 ^ (0 - -F.fractionBits : ℤ).toNat : ℤ) + 1 : ℤ) : ℚ) *
          2 ^ (-F.fractionBits : ℤ) := by
        push_cast
        ring
    _ ≤ _ := mul_le_mul_of_nonneg_right (by exact_mod_cast hsucc) hpos.le

/-- Rounding down takes away less than a quantum. -/
theorem lt_round_add_quantum (F : Format) (q : ℚ) : q < F.round q + F.quantum q := by
  have hpos := F.quantum_pos q
  have hle := (div_le_iff₀ hpos).mp (le_roundEven_add_half (q / F.quantum q))
  rw [add_mul, ← round] at hle
  linarith

/-- A representable factor above one adds at least a quantum. -/
theorem round_add_quantum_le_mul (ha : 1 ≤ a) (hrep : F.Representable q) (hq : 1 < q) :
    F.round a + F.quantum a ≤ F.round a * q := by
  have hpower : 2 ^ Int.log 2 a ≤ F.round a :=
    zpow_le_round (by rw [exponent_of_one_le ha]; omega)
      (Int.zpow_log_le_self one_lt_two (zero_lt_one.trans_le ha))
  have hquantum : F.quantum a = 2 ^ Int.log 2 a * 2 ^ (-F.fractionBits : ℤ) := by
    rw [quantum, exponent_of_one_le ha, ← zpow_add₀ two_ne_zero, sub_eq_add_neg]
  have hbase : (0 : ℚ) < 2 ^ Int.log 2 a := zpow_pos two_pos _
  calc F.round a + F.quantum a
      ≤ F.round a + F.round a * 2 ^ (-F.fractionBits : ℤ) := by
        rw [hquantum]
        gcongr
    _ = F.round a * (1 + 2 ^ (-F.fractionBits : ℤ)) := by ring
    _ ≤ F.round a * q := mul_le_mul_of_nonneg_left (one_add_le_of_representable hrep hq)
        (hbase.le.trans hpower)

/-- From `2 ^ fractionBits` on the last digit weighs a whole number. -/
theorem exists_quantum_eq_intCast {n : ℕ} (hn : 2 ^ F.fractionBits ≤ n) :
    ∃ m : ℤ, F.quantum n = m := by
  have hone : (1 : ℚ) ≤ n := by exact_mod_cast Nat.one_le_two_pow.trans hn
  have hdigits : (0 : ℤ) ≤ F.exponent n := by
    rw [exponent_of_one_le hone, Int.log_natCast, sub_nonneg]
    exact_mod_cast Nat.le_log_of_pow_le one_lt_two hn
  have hunit := zpow_eq_multiple hdigits
  rw [zpow_zero, mul_one] at hunit
  exact ⟨_, hunit⟩

/-- From `2 ^ fractionBits` on, a representable factor above one brings a number
    further, though the number is rounded first. -/
theorem succ_le_round_mul {n : ℕ} (hn : 2 ^ F.fractionBits ≤ n) (hrep : F.Representable q)
    (hq : 1 < q) : (n : ℚ) + 1 ≤ F.round (F.round n * q) := by
  have hone : (1 : ℚ) ≤ n := by exact_mod_cast Nat.one_le_two_pow.trans hn
  have hquantum := round_add_quantum_le_mul hone hrep hq
  have hbelow := F.lt_round_add_quantum (n : ℚ)
  rcases lt_or_ge (F.round n * q) (2 ^ (Int.log 2 (n : ℚ) + 1)) with hnear | hfar
  · -- the product has the quantum of `n`, and the number above is a multiple of it
    have hsame : F.quantum (F.round n * q) = F.quantum n :=
      quantum_eq hone (hbelow.le.trans hquantum) hnear
    have hmultiple : F.round n + F.quantum n =
        ((roundEven (n / F.quantum n) + 1 : ℤ) : ℚ) * F.quantum (F.round n * q) := by
      rw [hsame, round]
      push_cast
      ring
    have hround : F.round n + F.quantum n ≤ F.round (F.round n * q) := by
      rw [hmultiple] at hquantum ⊢
      exact multiple_le_round hquantum
    refine le_trans ?_ hround
    -- both are whole numbers
    obtain ⟨m, hm⟩ := exists_quantum_eq_intCast hn
    rw [hmultiple, hsame, hm] at hbelow ⊢
    exact_mod_cast hbelow
  · exact (succ_le_zpow_log_succ n).trans (zpow_log_succ_le_round hone hfar)

end Format

end Melis.Lib
