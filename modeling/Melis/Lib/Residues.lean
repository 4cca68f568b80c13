import Mathlib

/-!
# Residues of consecutive numbers

`inSlice s w W t`: the residue of `t` modulo `W` lies in the slice `[s, s + w)`.
How many of the numbers `c, …, c + n - 1` have their residue in a slice.

* `countP_cycle`: over a full cycle, as many as the slice is long.
* `countP_residues_le`, `le_countP_residues`: over any stretch, that many for each
  full cycle and at most one slice more.
* `countP_residues_eq`: exactly so many more, `overlap`, and `overlap_bounds`,
  `overlap_max`, `overlap_min` say how many that can be.
* `countP_of_nodup`: distinct residues that fill the cycle fill every slice.
* `Successive.nodup`: residues that follow one another are distinct over a cycle.
-/

namespace Melis.Lib

/-- The residue of `t` modulo `W` lies in `[s, s + w)`. -/
def inSlice (s w W t : ℕ) : Bool := decide (s ≤ t % W ∧ t % W < s + w)

variable {s w W c n : ℕ}

theorem inSlice_mod (s w W t : ℕ) : inSlice s w W (t % W) = inSlice s w W t := by
  simp [inSlice]

theorem inSlice_of_lt {t : ℕ} (ht : t < W) :
    inSlice s w W t = decide (s ≤ t ∧ t < s + w) := by
  simp [inSlice, Nat.mod_eq_of_lt ht]

theorem inSlice_periodic (s w W : ℕ) : Function.Periodic (fun t => inSlice s w W t = true) W := by
  intro t
  simp [inSlice]

/-- Below `W` the residues are the numbers themselves. -/
theorem count_inSlice (h : s + w ≤ W) : Nat.count (fun t => inSlice s w W t = true) W = w := by
  rw [Nat.count_eq_card_filter_range]
  have : {t ∈ Finset.range W | inSlice s w W t = true} = Finset.Ico s (s + w) := by
    ext t
    rw [Finset.mem_filter, Finset.mem_range, Finset.mem_Ico]
    constructor
    · rintro ⟨ht, hs⟩
      rw [inSlice_of_lt ht] at hs
      exact of_decide_eq_true hs
    · rintro hs
      have ht : t < W := by omega
      exact ⟨ht, by rw [inSlice_of_lt ht]; exact decide_eq_true hs⟩
  rw [this, Nat.card_Ico]
  omega

/-- A full cycle meets a slice as often as the slice is long, wherever it
    begins. -/
theorem countP_cycle (h : s + w ≤ W) (c : ℕ) : (List.range' c W).countP (inSlice s w W) = w := by
  have hp := Nat.filter_multiset_Ico_card_eq_of_periodic c W _ (inSlice_periodic s w W)
  have hico : Multiset.Ico c (c + W) = (List.range' c W : Multiset ℕ) := by
    rw [Multiset.Ico, Nat.Ico_eq_range', Nat.add_sub_cancel_left]
  rw [count_inSlice h, hico, Multiset.filter_coe, Multiset.coe_card] at hp
  rw [List.countP_eq_length_filter]
  simpa only [Bool.decide_eq_true] using hp

theorem countP_cycles (h : s + w ≤ W) (c k : ℕ) :
    (List.range' c (k * W)).countP (inSlice s w W) = k * w := by
  induction k generalizing c with
  | zero => simp
  | succ k ih =>
    rw [Nat.succ_mul, Nat.succ_mul, ← List.range'_append_1, List.countP_append, ih,
      countP_cycle h]

/-- The full cycles of a stretch, and what is left. -/
theorem countP_residues (h : s + w ≤ W) (c n : ℕ) :
    (List.range' c n).countP (inSlice s w W) =
      n / W * w + (List.range' (c + n / W * W) (n % W)).countP (inSlice s w W) := by
  have hn : n = n / W * W + n % W := (Nat.div_add_mod' n W).symm
  conv_lhs => rw [hn]
  rw [← List.range'_append_1, List.countP_append, countP_cycles h]

/-- Less than a cycle meets a slice at most once for each of its positions. -/
theorem countP_lt_cycle (h : s + w ≤ W) (hn : n ≤ W) (c : ℕ) :
    (List.range' c n).countP (inSlice s w W) ≤ w := by
  have hsub : (List.range' c n).Sublist (List.range' c W) := by
    have : W = n + (W - n) := by omega
    rw [this, ← List.range'_append_1]
    exact List.sublist_append_left _ _
  exact (hsub.countP_le).trans_eq (countP_cycle h c)

theorem le_countP_residues (h : s + w ≤ W) (c n : ℕ) :
    n / W * w ≤ (List.range' c n).countP (inSlice s w W) := by
  rw [countP_residues h]
  omega

theorem countP_residues_le (h : s + w ≤ W) (hW : 0 < W) (c n : ℕ) :
    (List.range' c n).countP (inSlice s w W) ≤ n / W * w + min w (n % W) := by
  rw [countP_residues h]
  refine Nat.add_le_add_left (le_min ?_ ?_) _
  · exact countP_lt_cycle h (Nat.mod_lt n hW).le _
  · exact List.countP_le_length.trans_eq (by simp)

/-! ## Exactly how many -/

/-- How many of the `n` positions from `p` on, around a cycle of `W`, lie in
    `[s, s + w)`: those before the cycle ends, and those after. -/
def overlap (s w W p n : ℕ) : ℕ :=
  (min (p + n) (s + w) - max p s) + (min (p + n) (s + W + w) - (s + W))

/-- One more position meets `[a, b)` in one more place if it lies there. -/
theorem interval_succ (p n a b : ℕ) :
    min (p + (n + 1)) b - max p a =
      (min (p + n) b - max p a) + if a ≤ p + n ∧ p + n < b then 1 else 0 := by
  split_ifs with h
  · rw [min_eq_left (by omega), min_eq_left (by omega)]
    omega
  · omega

theorem overlap_succ {p : ℕ} (h : s + w ≤ W) (hp : p < W) (hn : n < W) :
    overlap s w W p (n + 1) =
      overlap s w W p n + if inSlice s w W (p + n) = true then 1 else 0 := by
  have hmax : max p (s + W) = s + W := max_eq_right (by omega)
  have hfirst := interval_succ p n s (s + w)
  have hsecond := interval_succ p n (s + W) (s + W + w)
  rw [hmax] at hsecond
  rw [overlap, hfirst, hsecond, overlap]
  rcases Nat.lt_or_ge (p + n) W with hlt | hge
  · rw [inSlice_of_lt hlt, if_neg (show ¬ (s + W ≤ p + n ∧ _) by omega)]
    simp only [decide_eq_true_eq]
    omega
  · have hmod : (p + n) % W = p + n - W := by
      rw [Nat.mod_eq_sub_mod hge, Nat.mod_eq_of_lt (by omega)]
    have hiff : (s + W ≤ p + n ∧ p + n < s + W + w) ↔ (s ≤ p + n - W ∧ p + n - W < s + w) := by
      omega
    rw [inSlice, hmod, if_neg (show ¬ (s ≤ p + n ∧ p + n < s + w) by omega)]
    simp only [decide_eq_true_eq, hiff]
    omega

theorem countP_eq_overlap (h : s + w ≤ W) (hW : 0 < W) (hn : n ≤ W) (c : ℕ) :
    (List.range' c n).countP (inSlice s w W) = overlap s w W (c % W) n := by
  have hp : c % W < W := Nat.mod_lt c hW
  induction n with
  | zero =>
    rw [List.range'_zero, List.countP_nil, overlap]
    omega
  | succ n ih =>
    have hnext : inSlice s w W (c % W + n) = inSlice s w W (c + n) := by
      rw [← inSlice_mod, Nat.mod_add_mod, inSlice_mod]
    rw [List.range'_concat, List.countP_append, ih (Nat.le_of_succ_le hn), List.countP_singleton,
      Nat.one_mul, overlap_succ h hp hn, hnext]

/-- The slice for each full cycle, and its overlap with what is left. -/
theorem countP_residues_eq (h : s + w ≤ W) (hW : 0 < W) (c n : ℕ) :
    (List.range' c n).countP (inSlice s w W) = n / W * w + overlap s w W (c % W) (n % W) := by
  rw [countP_residues h, countP_eq_overlap h hW (Nat.mod_lt n hW).le, Nat.add_mul_mod_self_right]

theorem overlap_bounds {p : ℕ} (h : s + w ≤ W) (hp : p < W) (hn : n ≤ W) :
    w + n - W ≤ overlap s w W p n ∧ overlap s w W p n ≤ min w n := by
  rw [overlap]
  omega

/-- From the start of the slice on they are the most. -/
theorem overlap_max (hn : n ≤ W) : overlap s w W s n = min w n := by
  rw [overlap]
  omega

/-- From the end of the slice on they are the fewest. -/
theorem overlap_min (h : s + w ≤ W) (hn : n ≤ W) :
    overlap s w W ((s + w) % W) n = w + n - W := by
  rcases Nat.lt_or_eq_of_le h with hlt | rfl
  · rw [Nat.mod_eq_of_lt hlt, overlap]
    omega
  · rw [Nat.mod_self, overlap]
    omega

/-! ## Numbers that need not be consecutive -/

theorem countP_map_mod (s w W : ℕ) (ts : List ℕ) :
    (ts.map (· % W)).countP (inSlice s w W) = ts.countP (inSlice s w W) := by
  rw [List.countP_map]
  exact List.countP_congr fun t _ => by simp [inSlice_mod]

/-- Distinct residues that are as many as the cycle are all of them. -/
theorem residues_perm {ts : List ℕ} (hlen : ts.length = W) (hnodup : (ts.map (· % W)).Nodup) :
    (ts.map (· % W)).Perm (List.range W) := by
  have hsub : ts.map (· % W) ⊆ List.range W := by
    intro r hr
    obtain ⟨t, ht, rfl⟩ := List.mem_map.mp hr
    have : 0 < W := hlen ▸ List.length_pos_of_mem ht
    exact List.mem_range.mpr (Nat.mod_lt t this)
  apply List.Subperm.perm_of_length_le (List.subperm_of_subset hnodup hsub)
  simp [hlen]

theorem countP_of_nodup {ts : List ℕ} (h : s + w ≤ W) (hlen : ts.length = W)
    (hnodup : (ts.map (· % W)).Nodup) : ts.countP (inSlice s w W) = w := by
  have hperm := (residues_perm hlen hnodup).countP_eq (inSlice s w W)
  rw [countP_map_mod, List.range_eq_range', countP_cycle h] at hperm
  exact hperm

/-- Residues that fill every slice of length one are distinct. -/
theorem nodup_of_countP {ts : List ℕ} (hW : 0 < W)
    (h : ∀ s < W, ts.countP (inSlice s 1 W) = 1) : (ts.map (· % W)).Nodup := by
  rw [List.nodup_iff_count_le_one]
  intro r
  rcases Nat.lt_or_ge r W with hr | hr
  · have hcount := h r hr
    rw [← countP_map_mod] at hcount
    rw [← hcount, List.count]
    refine List.countP_mono_left fun t ht he => ?_
    obtain rfl := beq_iff_eq.mp he
    obtain ⟨u, -, rfl⟩ := List.mem_map.mp ht
    rw [inSlice_mod]
    simp [inSlice]
  · by_cases hmem : r ∈ ts.map (· % W)
    · obtain ⟨t, -, rfl⟩ := List.mem_map.mp hmem
      exact absurd (Nat.mod_lt t hW) (Nat.not_lt_of_le hr)
    · rw [List.count_eq_zero_of_not_mem hmem]
      exact Nat.zero_le 1

/-- Each number has the residue that follows the one before it. -/
def Successive (W : ℕ) (ts : List ℕ) : Prop :=
  ts.IsChain fun t t' => t' % W = (t + 1) % W

theorem Successive.residue {t : ℕ} {ts : List ℕ} (h : Successive W (t :: ts)) :
    (t :: ts).map (· % W) = (List.range (ts.length + 1)).map fun j => (t + j) % W := by
  induction ts generalizing t with
  | nil => simp
  | cons t' ts ih =>
    obtain ⟨hnext, h⟩ := List.isChain_cons_cons.mp h
    rw [List.map_cons, ih h, List.length_cons, List.range_succ_eq_map (n := ts.length + 1),
      List.map_cons, List.map_map, Nat.add_zero]
    refine congrArg _ (List.map_congr_left fun j _ => ?_)
    show (t' + j) % W = (t + (j + 1)) % W
    rw [Nat.add_mod, hnext, ← Nat.add_mod]
    congr 1
    omega

/-- Less than a cycle of successive residues has no residue twice. -/
theorem Successive.nodup {ts : List ℕ} (h : Successive W ts) (hlen : ts.length ≤ W) :
    (ts.map (· % W)).Nodup := by
  match ts with
  | [] => exact List.nodup_nil
  | t :: ts =>
    rw [h.residue]
    refine List.Nodup.map_on ?_ List.nodup_range
    intro i hi j hj he
    rw [List.mem_range] at hi hj
    rw [List.length_cons] at hlen
    have hmod : (i : ℕ) ≡ j [MOD W] := Nat.ModEq.add_left_cancel' t he
    exact Nat.ModEq.eq_of_lt_of_lt hmod (by omega) (by omega)

end Melis.Lib
