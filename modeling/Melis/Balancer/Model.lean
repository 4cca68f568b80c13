import Melis.Common.Error
import Melis.Lib.Weighted
import Melis.RouteConfig.Model

/-!
# Weighted round-robin (`balancer.rs`)

`WeightedRoundRobin::select_provider` as a function of the counter and the
candidate list. The counter is a `u64` that wraps.

* `selectProvider_cases`: what is selected is a candidate; the fallback after
  the walk is not reached.
* `selectProvider_ok_iff`: when there is a selection.
* `exists_counter_selectProvider`: some counter selects a given candidate.
-/

namespace Melis.Balancer

/-- `total_weight` (line 103). -/
def totalWeight (providers : List WeightedProvider) : ℕ := (providers.map (·.weight)).sum

/-- `select_provider` (lines 88–126): the selection and the counter after it. -/
def selectProvider (counter : ℕ) (providers : List WeightedProvider) :
    Except GatewayError WeightedProvider × ℕ :=
  match providers with
  | [] => (.error (.serviceUnavailable "No providers available"), counter)
  | [p] => (.ok p, counter)
  | p :: q :: ps =>
    let providers := p :: q :: ps
    if totalWeight providers = 0 then
      (.error (.serviceUnavailable "No providers available"), counter)
    else
      let position := counter % totalWeight providers
      let fallback := providers.getLast (by simp [providers])
      (.ok ((Lib.pickAt (·.weight) position 0 providers).getD fallback), (counter + 1) % 2 ^ 64)

variable {counter : ℕ} {providers : List WeightedProvider} {p : WeightedProvider}

/-- The walk reaches a candidate before the fallback. -/
theorem pickAt_position (h : totalWeight providers ≠ 0) (counter : ℕ) :
    ∃ p ∈ providers,
      Lib.pickAt (·.weight) (counter % totalWeight providers) 0 providers = some p := by
  have hlt : counter % totalWeight providers < 0 + (providers.map (·.weight)).sum := by
    rw [Nat.zero_add]
    exact Nat.mod_lt counter (Nat.pos_of_ne_zero h)
  obtain ⟨p, hp⟩ := Option.isSome_iff_exists.mp
    (Lib.pickAt_isSome hlt (Nat.zero_le _))
  exact ⟨p, Lib.mem_of_pickAt hp, hp⟩

/-- The candidate the walk reaches is selected. -/
theorem selectProvider_of_pickAt (h : totalWeight providers ≠ 0)
    (hpick : Lib.pickAt (·.weight) (counter % totalWeight providers) 0 providers = some p) :
    (selectProvider counter providers).1 = .ok p := by
  match providers with
  | [] => simp [Lib.pickAt] at hpick
  | [q] => rw [List.mem_singleton.mp (Lib.mem_of_pickAt hpick), selectProvider]
  | q :: r :: ps => simp only [selectProvider, if_neg h, hpick, Option.getD_some]

/-- `select_provider` fails without candidates, or selects one, or fails because
    two or more candidates have no weight. -/
theorem selectProvider_cases (counter : ℕ) (providers : List WeightedProvider) :
    (∃ p ∈ providers, (selectProvider counter providers).1 = .ok p) ∨
      (selectProvider counter providers).1 =
        .error (.serviceUnavailable "No providers available") ∧
      (providers = [] ∨ totalWeight providers = 0) := by
  match providers with
  | [] => exact .inr ⟨rfl, .inl rfl⟩
  | [p] => exact .inl ⟨p, List.mem_singleton_self p, rfl⟩
  | p :: q :: ps =>
    by_cases h : totalWeight (p :: q :: ps) = 0
    · exact .inr ⟨by simp [selectProvider, h], .inr h⟩
    · obtain ⟨r, hr, hpick⟩ := pickAt_position h counter
      exact .inl ⟨r, hr, selectProvider_of_pickAt h hpick⟩

theorem mem_of_selectProvider (h : (selectProvider counter providers).1 = .ok p) :
    p ∈ providers := by
  rcases selectProvider_cases counter providers with ⟨q, hq, he⟩ | ⟨he, -⟩
  · obtain rfl : q = p := by rw [he] at h; cases h; rfl
    exact hq
  · rw [he] at h
    cases h

theorem totalWeight_ne_zero (hmem : p ∈ providers) (hp : 0 < p.weight) :
    totalWeight providers ≠ 0 := by
  have : p.weight ≤ totalWeight providers :=
    List.single_le_sum (fun _ _ => Nat.zero_le _) _ (List.mem_map_of_mem hmem)
  omega

/-- Whether `select_provider` succeeds does not depend on the counter: a single
    candidate is selected, and two or more need some weight. -/
theorem selectProvider_ok_iff (counter : ℕ) (providers : List WeightedProvider) :
    (∃ p, (selectProvider counter providers).1 = .ok p) ↔
      providers.length = 1 ∨ ∃ p ∈ providers, 0 < p.weight := by
  match providers with
  | [] => simp [selectProvider]
  | [p] => simp [selectProvider]
  | p :: q :: ps =>
    have hlength : ¬ (p :: q :: ps).length = 1 := by simp
    rw [or_iff_right hlength]
    constructor
    · rintro ⟨r, hr⟩
      by_contra! hzero
      have htotal : totalWeight (p :: q :: ps) = 0 := by
        refine List.sum_eq_zero fun w hw => ?_
        obtain ⟨r, hr, rfl⟩ := List.mem_map.mp hw
        exact Nat.le_zero.mp (hzero r hr)
      rw [selectProvider, if_pos htotal] at hr
      cases hr
    · rintro ⟨r, hr, hweight⟩
      obtain ⟨r', -, hpick⟩ := pickAt_position (totalWeight_ne_zero hr hweight) counter
      exact ⟨r', selectProvider_of_pickAt (totalWeight_ne_zero hr hweight) hpick⟩

/-- Some counter selects a given candidate of positive weight. -/
theorem exists_counter_selectProvider (hmem : p ∈ providers) (hp : 0 < p.weight) :
    ∃ counter, (selectProvider counter providers).1 = .ok p := by
  obtain ⟨pre, post, rfl⟩ := List.append_of_mem hmem
  refine ⟨totalWeight pre, ?_⟩
  have hlt : totalWeight pre < totalWeight (pre ++ p :: post) := by
    simp only [totalWeight, List.map_append, List.sum_append, List.map_cons, List.sum_cons]
    omega
  have hpick := Lib.pickAt_append hp 0 pre post
  rw [Nat.zero_add, ← totalWeight, ← Nat.mod_eq_of_lt hlt] at hpick
  exact selectProvider_of_pickAt (totalWeight_ne_zero hmem hp) hpick

end Melis.Balancer
