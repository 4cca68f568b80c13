import Melis.Balancer.Distribution

/-!
# The documented tolerance

The module's documentation promises that requests are distributed in proportion to the
weights "with ≤ 5% deviation over 1000 requests". A full cycle of ticks is exact, so the
deviation comes from the part of a cycle that 1000 requests leave over, which the entries
serve in blocks.

* `exists_selections`: any number of calls can be made.
* `selected_count_eq`: how often each entry is selected.
* `withinTolerance_iff`: from which counters the documentation holds.
* `withinTolerance_all_iff`: for which weights it holds from every counter.
* `outside_tolerance`: three equal weights for which it does not.
-/

namespace Melis.Balancer

variable {providers : List WeightedProvider} {c n : ℕ}

/-! ## The calls -/

/-- `s` is reached from counter `c` by `n` calls, which have all returned. -/
def Selected (providers : List WeightedProvider) (c n : ℕ) (s : Calls) : Prop :=
  (∃ tr, Lib.Run (selections providers) (.start c) tr s) ∧ s.walking = [] ∧
    s.selected.length = n

/-- Any number of calls can be made, one after another. -/
theorem exists_selections (providers : List WeightedProvider) (c n : ℕ) :
    ∃ s, Selected providers c n s := by
  induction n with
  | zero => exact ⟨.start c, ⟨[], .nil⟩, rfl, rfl⟩
  | succ n ih =>
    obtain ⟨s, ⟨tr, hrun⟩, hdone, hn⟩ := ih
    let t := (selections providers).step s .fetchAdd
    have hfetch : Lib.Run (selections providers) (.start c) _ t := .snoc hrun trivial
    have hpending : t.walking = [s.counter] := by
      show s.walking ++ [s.counter] = _
      rw [hdone, List.nil_append]
    have hfinish : (selections providers).enabled t (.finish s.counter) := by
      show s.counter ∈ t.walking
      rw [hpending]
      exact List.mem_singleton_self _
    refine ⟨_, ⟨_, .snoc hfetch hfinish⟩, ?_, ?_⟩
    · show t.walking.erase s.counter = []
      rw [hpending, List.erase_cons_head]
    · show (s.selected ++ [selectPosition s.counter providers]).length = n + 1
      rw [List.length_append, hn, List.length_singleton]

/-- An entry is selected once for each unit of its weight in every full cycle, and as
    often again as its slice meets the rest of the ticks. -/
theorem selected_count_eq {s : Calls} (hlen : 2 ≤ providers.length)
    (hW : 0 < totalWeight providers) (hc : c + n < 2 ^ 64) (hs : Selected providers c n s)
    {i : ℕ} (hi : i < providers.length) :
    let W := totalWeight providers
    s.selected.count i = n / W * providers[i].weight +
      Lib.overlap (sliceStart providers i) providers[i].weight W (c % W) (n % W) := by
  intro W
  obtain ⟨⟨tr, hrun⟩, hdone, hn⟩ := hs
  obtain ⟨k, h⟩ := callsInv_run hlen hW (by omega) hrun
  have hperm := h.selected_perm hdone (hn ▸ hc)
  rw [hperm.count_eq, hn, count_selectPosition hW hi]
  exact Lib.countP_residues_eq (sliceStart_add_le hi) hW c n

/-! ## The share of an entry -/

/-- Each entry's share of the selections differs from its share of the weight by at most
    5%. -/
def WithinTolerance (providers : List WeightedProvider) (selected : List ℕ) : Prop :=
  ∀ i (hi : i < providers.length),
    |(selected.count i : ℚ) / selected.length -
      (providers[i].weight : ℚ) / totalWeight providers| ≤ 5 / 100

/-- `o` more selections than in the full cycles of `n` ticks are within 5% of the share
    of a weight `w` out of `W`. -/
def FairRest (n W w o : ℕ) : Prop :=
  20 * (W * o) ≤ 20 * (n % W * w) + n * W ∧ 20 * (n % W * w) ≤ 20 * (W * o) + n * W

instance (n W w o : ℕ) : Decidable (FairRest n W w o) := inferInstanceAs (Decidable (_ ∧ _))

/-- The full cycles are exact. -/
theorem abs_share_sub_le_iff {n W w o : ℕ} (hn : 0 < n) (hW : 0 < W) :
    |((n / W * w + o : ℕ) : ℚ) / n - (w : ℚ) / W| ≤ 5 / 100 ↔ FairRest n W w o := by
  have hn' : (0 : ℚ) < n := Nat.cast_pos.mpr hn
  have hW' : (0 : ℚ) < W := Nat.cast_pos.mpr hW
  have hcycles : (n : ℚ) = W * (n / W : ℕ) + (n % W : ℕ) := by
    exact_mod_cast (Nat.div_add_mod n W).symm
  have hdiff : ((n / W * w + o : ℕ) : ℚ) / n - (w : ℚ) / W =
      ((W : ℚ) * o - (n % W : ℕ) * w) / (n * W) := by
    rw [div_sub_div _ _ hn'.ne' hW'.ne']
    congr 1
    push_cast
    rw [hcycles]
    ring
  rw [hdiff, abs_le, le_div_iff₀ (by positivity), div_le_iff₀ (by positivity), FairRest, and_comm]
  refine and_congr ?_ ?_
  · rw [← Nat.cast_le (α := ℚ)]
    push_cast
    constructor <;> intro h <;> linarith
  · rw [← Nat.cast_le (α := ℚ)]
    push_cast
    constructor <;> intro h <;> linarith

/-! ## From which counters the documentation holds -/

theorem totalWeight_pos (hlen : 2 ≤ providers.length) (hpos : ∀ p ∈ providers, 0 < p.weight) :
    0 < totalWeight providers := by
  have hmem : providers[0] ∈ providers := List.getElem_mem (by omega)
  exact Nat.pos_of_ne_zero (totalWeight_ne_zero hmem (hpos _ hmem))

theorem withinTolerance_selected {s : Calls} (hlen : 2 ≤ providers.length)
    (hW : 0 < totalWeight providers) (hn : 0 < n) (hc : c + n < 2 ^ 64)
    (hs : Selected providers c n s) :
    WithinTolerance providers s.selected ↔
      ∀ i (hi : i < providers.length),
        FairRest n (totalWeight providers) providers[i].weight
          (Lib.overlap (sliceStart providers i) providers[i].weight (totalWeight providers)
            (c % totalWeight providers) (n % totalWeight providers)) := by
  refine forall_congr' fun i => forall_congr' fun hi => ?_
  rw [selected_count_eq hlen hW hc hs hi, hs.2.2]
  exact abs_share_sub_le_iff hn hW

/-- **Tolerance.** Over 1000 calls that start at counter `c`, in any interleaving, each
    share is within 5% exactly if each slice meets the `1000 % W` positions from `c % W` on
    in about its part of them. -/
theorem withinTolerance_iff {tr : List (Lib.Step Calls CallEvent)} {s : Calls}
    (hlen : 2 ≤ providers.length) (hpos : ∀ p ∈ providers, 0 < p.weight)
    (hc : c + 1000 < 2 ^ 64) (hrun : Lib.Run (selections providers) (.start c) tr s)
    (hdone : s.walking = []) (hn : s.selected.length = 1000) :
    let W := totalWeight providers
    WithinTolerance providers s.selected ↔
      ∀ i (hi : i < providers.length),
        FairRest 1000 W providers[i].weight
          (Lib.overlap (sliceStart providers i) providers[i].weight W (c % W) (1000 % W)) :=
  withinTolerance_selected hlen (totalWeight_pos hlen hpos) (by decide) hc ⟨⟨tr, hrun⟩, hdone, hn⟩

/-- Weights of 1 and 2, from counter 5. -/
theorem withinTolerance_iff_two :
    let providers : List WeightedProvider := [⟨"openai", 1, "gpt-4o"⟩, ⟨"ollama", 2, "llama3"⟩]
    ∃ s, Selected providers 5 1000 s ∧ WithinTolerance providers s.selected := by
  intro providers
  obtain ⟨s, ⟨tr, hrun⟩, hdone, hn⟩ := exists_selections providers 5 1000
  refine ⟨s, ⟨⟨tr, hrun⟩, hdone, hn⟩, ?_⟩
  refine (withinTolerance_iff (by decide) (by decide) (by decide) hrun hdone hn).mpr ?_
  decide

/-- Three entries of weight 100, from counter 0: the 100 ticks left over by three full
    cycles all go to the first, which serves 400 of the 1000 calls. -/
theorem outside_tolerance :
    let providers : List WeightedProvider :=
      [⟨"openai", 100, "gpt-4o"⟩, ⟨"anthropic", 100, "claude-3"⟩, ⟨"ollama", 100, "llama3"⟩]
    ∃ s, Selected providers 0 1000 s ∧ s.selected.count 0 = 400 ∧
      ¬ WithinTolerance providers s.selected := by
  intro providers
  obtain ⟨s, hs⟩ := exists_selections providers 0 1000
  refine ⟨s, hs, ?_, ?_⟩
  · rw [selected_count_eq (by decide) (by decide) (by decide) hs (by decide)]
    decide
  · rw [withinTolerance_selected (by decide) (by decide) (by decide) (by decide) hs]
    decide

/-! ## For which weights it holds from every counter -/

/-- `FairRest` needs checking only for the most and the fewest. -/
theorem fairRest_of_bounds {W w o low high : ℕ} (hlow : low ≤ o) (hhigh : o ≤ high)
    (h : FairRest n W w high) (h' : FairRest n W w low) : FairRest n W w o := by
  have hmul := Nat.mul_le_mul_left W hlow
  have hmul' := Nat.mul_le_mul_left W hhigh
  exact ⟨by have := h.1; omega, by have := h'.2; omega⟩

/-- The tolerance is kept from every counter exactly if each entry is within it where the
    ticks left over begin or end with its slice. -/
theorem withinTolerance_all_iff (hlen : 2 ≤ providers.length)
    (hpos : ∀ p ∈ providers, 0 < p.weight) (hn : 0 < n)
    (hbound : totalWeight providers + n ≤ 2 ^ 64) :
    let W := totalWeight providers
    (∀ c s, c + n < 2 ^ 64 → Selected providers c n s → WithinTolerance providers s.selected) ↔
      ∀ p ∈ providers, FairRest n W p.weight (min p.weight (n % W)) ∧
        FairRest n W p.weight (p.weight + n % W - W) := by
  intro W
  have hW : 0 < W := totalWeight_pos hlen hpos
  have hrest : n % W ≤ W := (Nat.mod_lt n hW).le
  constructor
  · intro hall p hp
    obtain ⟨i, hi, rfl⟩ := List.mem_iff_getElem.mp hp
    have hslice := sliceStart_add_le hi
    have hweight := hpos _ hp
    have hfair : ∀ c < W, FairRest n W providers[i].weight
        (Lib.overlap (sliceStart providers i) providers[i].weight W c (n % W)) := by
      intro c hc
      obtain ⟨s, hs⟩ := exists_selections providers c n
      have := (withinTolerance_selected hlen hW hn (by omega) hs).mp (hall c s (by omega) hs) i hi
      rwa [Nat.mod_eq_of_lt hc] at this
    refine ⟨?_, ?_⟩
    · rw [← @Lib.overlap_max (sliceStart providers i) _ W _ hrest]
      exact hfair _ (by omega)
    · rw [← Lib.overlap_min hslice hrest]
      exact hfair _ (Nat.mod_lt _ hW)
  · intro hall c s hc hs
    rw [withinTolerance_selected hlen hW hn hc hs]
    intro i hi
    obtain ⟨hmax, hmin⟩ := hall _ (List.getElem_mem hi)
    obtain ⟨hlow, hhigh⟩ := Lib.overlap_bounds (sliceStart_add_le hi) (Nat.mod_lt c hW) hrest
    exact fairRest_of_bounds hlow hhigh hmax hmin

end Melis.Balancer
