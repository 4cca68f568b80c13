import Melis.Balancer.Failover

/-!
# Entries of weight zero (`balancer.rs`)

With two or more candidates, `select_provider` walks the weights, and an entry of
weight zero is never reached; without any weight it is an error. A single candidate is
returned without a look at its weight. Exclusion during failover can leave a single
candidate of any list.

* `weightedWalk`: the selection without the path for a single candidate.
* `weightedWalk_ok`: the walk never selects an entry of weight zero, and fails on one
  alone (`weightedWalk_of_totalWeight_eq_zero`).
* `respectsWeights_iff`: the selection is the walk's, with or without exclusions,
  exactly when no single entry of weight zero is left.
* `not_forall_respectsWeights`: it is not always.
-/

namespace Melis.Balancer

/-- `select_provider` without its path for a single provider (lines 92–97 and
    103–126). -/
def weightedWalk (counter : ℕ) (providers : List WeightedProvider) :
    Except GatewayError WeightedProvider × ℕ :=
  match providers with
  | [] => (.error (.serviceUnavailable "No providers available"), counter)
  | p :: ps =>
    let providers := p :: ps
    if totalWeight providers = 0 then
      (.error (.serviceUnavailable "No providers available"), counter)
    else
      let position := counter % totalWeight providers
      let fallback := providers.getLast (by simp [providers])
      (.ok ((Lib.pickAt (·.weight) position 0 providers).getD fallback), (counter + 1) % 2 ^ 64)

/-- `available` of `select_with_failover` (lines 160–164). -/
def available (providers : List WeightedProvider) (exclude : List String) :
    List WeightedProvider :=
  providers.filter fun p => !exclude.contains p.name

/-- `select_with_failover` over the walk. -/
def walkWithFailover (counter : ℕ) (providers : List WeightedProvider)
    (exclude : List String) : Except GatewayError WeightedProvider × ℕ :=
  if (available providers exclude).isEmpty then
    (.error (.serviceUnavailable "All providers exhausted after failover attempts"), counter)
  else weightedWalk counter (available providers exclude)

variable {counter : ℕ} {providers : List WeightedProvider} {p : WeightedProvider}

/-! ## The walk -/

/-- The walk selects the candidate it reaches. -/
theorem weightedWalk_of_pickAt (h : totalWeight providers ≠ 0)
    (hpick : Lib.pickAt (·.weight) (counter % totalWeight providers) 0 providers = some p) :
    (weightedWalk counter providers).1 = .ok p := by
  match providers with
  | [] => simp [Lib.pickAt] at hpick
  | q :: ps => simp only [weightedWalk, if_neg h, hpick, Option.getD_some]

theorem weightedWalk_of_totalWeight_eq_zero (h : totalWeight providers = 0) :
    (weightedWalk counter providers).1 =
      .error (.serviceUnavailable "No providers available") := by
  match providers with
  | [] => rfl
  | q :: ps => rw [weightedWalk, if_pos h]

/-- What the walk selects has a weight. -/
theorem weightedWalk_ok (h : (weightedWalk counter providers).1 = .ok p) : 0 < p.weight := by
  by_cases hzero : totalWeight providers = 0
  · rw [weightedWalk_of_totalWeight_eq_zero hzero] at h
    cases h
  · obtain ⟨q, -, hpick⟩ := pickAt_position hzero counter
    obtain rfl : q = p := Except.ok.inj ((weightedWalk_of_pickAt hzero hpick).symm.trans h)
    exact Lib.weight_pos_of_pickAt hpick (Nat.zero_le _)

/-- On two or more candidates, and on none, the selection is the walk. -/
theorem selectProvider_eq_weightedWalk (h : ∀ p, providers ≠ [p]) :
    selectProvider counter providers = weightedWalk counter providers := by
  match providers with
  | [] => rfl
  | [p] => exact absurd rfl (h p)
  | p :: q :: ps => rfl

/-- On a single candidate the walk selects it, if it has a weight. -/
theorem weightedWalk_singleton (hp : 0 < p.weight) : (weightedWalk counter [p]).1 = .ok p := by
  have htotal := totalWeight_ne_zero (List.mem_singleton_self p) hp
  obtain ⟨q, hq, hpick⟩ := pickAt_position htotal counter
  obtain rfl := List.mem_singleton.mp hq
  exact weightedWalk_of_pickAt htotal hpick

/-! ## The selection -/

/-- The list is not a single entry of weight zero. -/
def NotZeroAlone (providers : List WeightedProvider) : Prop := ∀ p, providers = [p] → 0 < p.weight

/-- The selection returns what the walk does, unless a single entry of weight zero is
    left. -/
theorem selectProvider_eq_weightedWalk_iff (counter : ℕ) (providers : List WeightedProvider) :
    (selectProvider counter providers).1 = (weightedWalk counter providers).1 ↔
      NotZeroAlone providers := by
  constructor
  · rintro heq p rfl
    exact weightedWalk_ok (heq.symm.trans rfl)
  · intro h
    by_cases hsingle : ∃ p, providers = [p]
    · obtain ⟨p, rfl⟩ := hsingle
      exact (weightedWalk_singleton (h p rfl)).symm
    · rw [selectProvider_eq_weightedWalk fun p hp => hsingle ⟨p, hp⟩]

/-- So it is with exclusions: the empty list is an error of its own. -/
theorem selectWithFailover_eq_walk_iff (counter : ℕ) (providers : List WeightedProvider)
    (exclude : List String) :
    (selectWithFailover counter providers exclude).1 =
        (walkWithFailover counter providers exclude).1 ↔
      NotZeroAlone (available providers exclude) := by
  have hdef : selectWithFailover counter providers exclude =
      if (available providers exclude).isEmpty then
        (.error (.serviceUnavailable "All providers exhausted after failover attempts"), counter)
      else selectProvider counter (available providers exclude) := rfl
  rw [hdef, walkWithFailover]
  split_ifs with hempty
  · refine iff_of_true rfl fun p hp => ?_
    rw [hp] at hempty
    cases hempty
  · exact selectProvider_eq_weightedWalk_iff counter _

theorem walkWithFailover_ok {exclude : List String}
    (h : (walkWithFailover counter providers exclude).1 = .ok p) : 0 < p.weight := by
  unfold walkWithFailover at h
  split_ifs at h with hempty
  exact weightedWalk_ok h

/-- Entries of weight zero get no traffic, and both selections return what the walk
    does. -/
structure RespectsWeights (counter : ℕ) (providers : List WeightedProvider)
    (exclude : List String) : Prop where
  select_pos : ∀ p, (selectProvider counter providers).1 = .ok p → 0 < p.weight
  failover_pos : ∀ p, (selectWithFailover counter providers exclude).1 = .ok p → 0 < p.weight
  select_eq : (selectProvider counter providers).1 = (weightedWalk counter providers).1
  failover_eq : (selectWithFailover counter providers exclude).1 =
    (walkWithFailover counter providers exclude).1

/-- **Weights are respected exactly when** neither the list nor what the exclusions leave
    of it is a single entry of weight zero. -/
theorem respectsWeights_iff (counter : ℕ) (providers : List WeightedProvider)
    (exclude : List String) :
    RespectsWeights counter providers exclude ↔
      NotZeroAlone providers ∧ NotZeroAlone (available providers exclude) := by
  rw [← selectProvider_eq_weightedWalk_iff counter, ← selectWithFailover_eq_walk_iff counter]
  constructor
  · exact fun h => ⟨h.select_eq, h.failover_eq⟩
  · rintro ⟨hselect, hfailover⟩
    exact ⟨fun p hp => weightedWalk_ok (hselect.symm.trans hp),
      fun p hp => walkWithFailover_ok (hfailover.symm.trans hp), hselect, hfailover⟩

/-! ## A drained provider -/

/-- After a failure of the only provider with a weight, the one without gets the
    request. -/
theorem not_forall_respectsWeights :
    ¬ ∀ (counter : ℕ) (providers : List WeightedProvider) (exclude : List String),
      RespectsWeights counter providers exclude := by
  intro h
  have hrespects := h 0 [⟨"active", 100, "gpt-4o"⟩, ⟨"drained", 0, "gpt-4o"⟩] ["active"]
  exact absurd (hrespects.failover_pos ⟨"drained", 0, "gpt-4o"⟩ rfl) (by decide)

end Melis.Balancer
