import Melis.Balancer.Model
import Melis.Lib.Residues
import Melis.Lib.Run

/-!
# How weighted round-robin distributes

The callers of `select_provider` run concurrently: each takes a tick from the
shared counter and then walks the list on its own. `selections` is the system of
these calls on one list, with the ticks handed out in any order of arrival and
the walks finished in any order.

* `selectProvider_eq`: the selection is the entry at `selectPosition`.
* `selectPosition_eq_iff`: an entry is selected at the ticks of its slice.
* `proportional_of_nodup`, `nodup_of_proportional`: ticks that run through all
  residues, and no others, distribute every weight table exactly.
* `CallsInv`: the ticks taken are consecutive, and each is pending or done.
* `selected_count`: how often each entry is selected.
-/

namespace Melis.Balancer

variable {providers : List WeightedProvider} {tick : ℕ}

/-! ## The entry a tick selects -/

/-- The walk of lines 110–121 returns an entry before it reaches the fallback. -/
def walkReturns (tick : ℕ) (providers : List WeightedProvider) : Bool :=
  (Lib.pickAt (·.weight) (tick % totalWeight providers) 0 providers).isSome

/-- The position in the list of the entry that is returned (lines 108–124): the
    entry the walk stops at, or the last one. -/
def selectPosition (tick : ℕ) (providers : List WeightedProvider) : ℕ :=
  if walkReturns tick providers then
    Lib.pickIndex (·.weight) (tick % totalWeight providers) 0 providers
  else providers.length - 1

/-- The weight of the entries before position `i`. -/
def sliceStart (providers : List WeightedProvider) (i : ℕ) : ℕ :=
  Lib.weightBefore (·.weight) providers i

theorem walkReturns_of_pos (hW : 0 < totalWeight providers) (tick : ℕ) :
    walkReturns tick providers = true := by
  obtain ⟨p, -, hp⟩ := pickAt_position hW.ne' tick
  rw [walkReturns, hp]
  rfl

theorem selectPosition_of_pos (hW : 0 < totalWeight providers) (tick : ℕ) :
    selectPosition tick providers =
      Lib.pickIndex (·.weight) (tick % totalWeight providers) 0 providers := by
  rw [selectPosition, if_pos (walkReturns_of_pos hW tick)]

theorem getElem?_selectPosition (hW : 0 < totalWeight providers) (tick : ℕ) :
    Lib.pickAt (·.weight) (tick % totalWeight providers) 0 providers =
      providers[selectPosition tick providers]? := by
  rw [Lib.pickAt_eq_getElem?, selectPosition_of_pos hW]

theorem selectPosition_lt (hW : 0 < totalWeight providers) (tick : ℕ) :
    selectPosition tick providers < providers.length := by
  obtain ⟨p, -, hp⟩ := pickAt_position hW.ne' tick
  rw [getElem?_selectPosition hW] at hp
  exact (List.getElem?_eq_some_iff.mp hp).1

/-- Among two or more entries with a weight, `select_provider` takes one tick and
    returns the entry at `selectPosition`. -/
theorem selectProvider_eq (hlen : 2 ≤ providers.length) (hW : 0 < totalWeight providers)
    (tick : ℕ) :
    selectProvider tick providers =
      (.ok (providers.get ⟨selectPosition tick providers, selectPosition_lt hW tick⟩),
        (tick + 1) % 2 ^ 64) := by
  have hpick := getElem?_selectPosition hW tick
  rw [List.getElem?_eq_getElem (selectPosition_lt hW tick)] at hpick
  match providers with
  | [] => simp at hlen
  | [p] => simp at hlen
  | p :: q :: ps =>
    simp only [selectProvider, if_neg hW.ne', hpick, Option.getD_some, List.get_eq_getElem]

/-- An entry is selected at the ticks whose residue lies in its slice. -/
theorem selectPosition_eq_iff (hW : 0 < totalWeight providers) {i : ℕ}
    (hi : i < providers.length) (tick : ℕ) :
    selectPosition tick providers = i ↔
      Lib.inSlice (sliceStart providers i) providers[i].weight (totalWeight providers) tick
        = true := by
  rw [selectPosition_of_pos hW, Lib.pickIndex_eq_iff hi (Nat.zero_le _), Nat.zero_add,
    Lib.inSlice, decide_eq_true_iff, sliceStart]

/-- The slice of an entry lies within the total. -/
theorem sliceStart_add_le {i : ℕ} (hi : i < providers.length) :
    sliceStart providers i + providers[i].weight ≤ totalWeight providers :=
  Lib.weightBefore_add_le hi

/-- Over some ticks an entry is selected as often as they fall into its slice. -/
theorem count_selectPosition (hW : 0 < totalWeight providers) {i : ℕ}
    (hi : i < providers.length) (ticks : List ℕ) :
    (ticks.map (selectPosition · providers)).count i =
      ticks.countP
        (Lib.inSlice (sliceStart providers i) providers[i].weight (totalWeight providers)) := by
  rw [List.count, List.countP_map]
  refine List.countP_congr fun tick _ => ?_
  rw [Function.comp_apply, beq_iff_eq]
  exact selectPosition_eq_iff hW hi tick

/-- The calls that take `ticks` select each entry as often as its weight. -/
def Proportional (providers : List WeightedProvider) (ticks : List ℕ) : Prop :=
  ∀ i (hi : i < providers.length),
    (ticks.map (selectPosition · providers)).count i = providers[i].weight

instance (providers : List WeightedProvider) (ticks : List ℕ) :
    Decidable (Proportional providers ticks) :=
  Nat.decidableBallLT _ _

/-- A full cycle of ticks with distinct residues is proportional. -/
theorem proportional_of_nodup (hW : 0 < totalWeight providers) {ticks : List ℕ}
    (hlen : ticks.length = totalWeight providers)
    (hnodup : (ticks.map (· % totalWeight providers)).Nodup) : Proportional providers ticks := by
  intro i hi
  rw [count_selectPosition hW hi]
  exact Lib.countP_of_nodup (sliceStart_add_le hi) hlen hnodup

/-- Entries of weight one. -/
def unitWeights (n : ℕ) : List WeightedProvider := List.replicate n ⟨"", 1, ""⟩

theorem totalWeight_unitWeights (n : ℕ) : totalWeight (unitWeights n) = n := by
  simp [totalWeight, unitWeights]

theorem sliceStart_unitWeights {n i : ℕ} (hi : i < n) : sliceStart (unitWeights n) i = i := by
  rw [sliceStart, Lib.weightBefore, unitWeights, List.take_replicate, List.map_replicate,
    List.sum_replicate, smul_eq_mul, Nat.mul_one, Nat.min_eq_left hi.le]

/-- Only ticks with distinct residues are proportional for entries of weight one. -/
theorem nodup_of_proportional {n : ℕ} (hn : 0 < n) {ticks : List ℕ}
    (h : Proportional (unitWeights n) ticks) : (ticks.map (· % n)).Nodup := by
  refine Lib.nodup_of_countP hn fun s hs => ?_
  have hi : s < (unitWeights n).length := by
    rw [unitWeights, List.length_replicate]
    exact hs
  have hW : 0 < totalWeight (unitWeights n) := (totalWeight_unitWeights n).symm ▸ hn
  have hcount := h s hi
  rw [count_selectPosition hW hi, sliceStart_unitWeights hs, totalWeight_unitWeights] at hcount
  simpa [unitWeights] using hcount

/-! ## Concurrent calls -/

/-- The calls on one list: the counter, the ticks of the callers that walk the
    list, and the positions selected, in the order in which the calls return. -/
structure Calls where
  counter : ℕ
  walking : List ℕ
  selected : List ℕ

/-- What a caller does next. -/
inductive CallEvent where
  | fetchAdd
  | finish (tick : ℕ)

/-- Before the first call. -/
def Calls.start (counter : ℕ) : Calls where
  counter := counter
  walking := []
  selected := []

/-- The calls to `select_provider` on `providers`: `fetch_add` (line 107) is
    atomic, and the walks (lines 108–124) of several callers overlap. -/
def selections (providers : List WeightedProvider) : Lib.System Calls CallEvent where
  enabled s
    | .fetchAdd => True
    | .finish tick => tick ∈ s.walking
  step s
    | .fetchAdd =>
      { s with
        counter := (selectProvider s.counter providers).2
        walking := s.walking ++ [s.counter] }
    | .finish tick =>
      { s with
        walking := s.walking.erase tick
        selected := s.selected ++ [selectPosition tick providers] }

/-- From counter `c` on, the ticks taken are the next `k` values of the counter;
    each is being walked or has been finished. -/
structure CallsInv (providers : List WeightedProvider) (c k : ℕ) (s : Calls) : Prop where
  counter : s.counter = (c + k) % 2 ^ 64
  ticks : ∃ finished, s.selected = finished.map (selectPosition · providers) ∧
    (s.walking ++ finished).Perm ((List.range' c k).map (· % 2 ^ 64))

theorem callsInv_start {c : ℕ} (hc : c < 2 ^ 64) : CallsInv providers c 0 (.start c) where
  counter := (Nat.mod_eq_of_lt hc).symm
  ticks := ⟨[], rfl, List.Perm.refl _⟩

/-- `fetch_add` hands out the next tick. -/
theorem CallsInv.fetchAdd {c k : ℕ} {s : Calls} (h : CallsInv providers c k s)
    (hlen : 2 ≤ providers.length) (hW : 0 < totalWeight providers) :
    CallsInv providers c (k + 1) ((selections providers).step s .fetchAdd) where
  counter := by
    show (selectProvider s.counter providers).2 = _
    rw [selectProvider_eq hlen hW, h.counter]
    omega
  ticks := by
    obtain ⟨finished, hselected, hperm⟩ := h.ticks
    refine ⟨finished, hselected, ?_⟩
    show ((s.walking ++ [s.counter]) ++ finished).Perm _
    have hnext : (List.range' c (k + 1)).map (· % 2 ^ 64) =
        (List.range' c k).map (· % 2 ^ 64) ++ [s.counter] := by
      rw [List.range'_concat, List.map_append, h.counter, Nat.one_mul]
      rfl
    rw [hnext, List.append_assoc]
    have hmove : (s.walking ++ ([s.counter] ++ finished)).Perm
        (s.walking ++ (finished ++ [s.counter])) := List.perm_append_comm.append_left _
    rw [← List.append_assoc s.walking finished] at hmove
    exact hmove.trans (hperm.append_right _)

/-- A walk that is finished has selected the entry of its tick. -/
theorem CallsInv.finish {c k tick : ℕ} {s : Calls} (h : CallsInv providers c k s)
    (htick : tick ∈ s.walking) :
    CallsInv providers c k ((selections providers).step s (.finish tick)) where
  counter := h.counter
  ticks := by
    obtain ⟨finished, hselected, hperm⟩ := h.ticks
    refine ⟨finished ++ [tick], ?_, ?_⟩
    · show s.selected ++ [selectPosition tick providers] = _
      rw [hselected, List.map_append, List.map_singleton]
    · show (s.walking.erase tick ++ (finished ++ [tick])).Perm _
      refine List.Perm.trans ?_ hperm
      have hwalking := List.perm_cons_erase htick
      have hmove : (s.walking.erase tick ++ (finished ++ [tick])).Perm
          (tick :: s.walking.erase tick ++ finished) := by
        rw [← List.append_assoc]
        exact List.perm_append_singleton tick _
      exact hmove.trans (hwalking.symm.append_right finished)

theorem callsInv_run {c : ℕ} {tr : List (Lib.Step Calls CallEvent)} {s : Calls}
    (hlen : 2 ≤ providers.length) (hW : 0 < totalWeight providers) (hc : c < 2 ^ 64)
    (hrun : Lib.Run (selections providers) (.start c) tr s) : ∃ k, CallsInv providers c k s := by
  induction hrun with
  | nil => exact ⟨0, callsInv_start hc⟩
  | @snoc tr s e hrun henabled ih =>
    obtain ⟨k, h⟩ := ih
    match e with
    | .fetchAdd => exact ⟨k + 1, h.fetchAdd hlen hW⟩
    | .finish tick => exact ⟨k, h.finish henabled⟩

/-- When no call is under way, the calls have taken consecutive ticks. -/
theorem CallsInv.selected_perm {c k : ℕ} {s : Calls} (h : CallsInv providers c k s)
    (hdone : s.walking = []) (hbound : c + s.selected.length < 2 ^ 64) :
    s.selected.Perm ((List.range' c s.selected.length).map (selectPosition · providers)) := by
  obtain ⟨finished, hselected, hperm⟩ := h.ticks
  rw [hdone, List.nil_append] at hperm
  have hk : s.selected.length = k := by
    rw [hselected, List.length_map, hperm.length_eq, List.length_map, List.length_range']
  rw [hk] at hbound ⊢
  have hmod : (List.range' c k).map (· % 2 ^ 64) = List.range' c k := by
    conv_rhs => rw [← List.map_id (List.range' c k)]
    refine List.map_congr_left fun t ht => ?_
    obtain ⟨-, ht⟩ := List.mem_range'_1.mp ht
    exact Nat.mod_eq_of_lt (by omega)
  rw [hselected]
  rw [hmod] at hperm
  exact hperm.map _

/-- **Distribution.** From any counter, in any interleaving of `n` calls that does
    not wrap the counter, the entry at position `i` is selected once for each unit
    of its weight in every full cycle and at most as often again as the rest of
    the ticks and its weight allow; exactly so after full cycles. The fallback
    after the walk is not reached. -/
theorem selected_count {c n : ℕ} {tr : List (Lib.Step Calls CallEvent)} {s : Calls}
    (hlen : 2 ≤ providers.length) (hW : 0 < totalWeight providers) (hc : c + n < 2 ^ 64)
    (hrun : Lib.Run (selections providers) (.start c) tr s) (hdone : s.walking = [])
    (hn : s.selected.length = n) :
    let W := totalWeight providers
    (∀ i (hi : i < providers.length),
      n / W * providers[i].weight ≤ s.selected.count i ∧
        s.selected.count i ≤ n / W * providers[i].weight + min providers[i].weight (n % W) ∧
        (W ∣ n → s.selected.count i = n / W * providers[i].weight)) ∧
    (∀ x ∈ tr, ∀ tick, x.event = .finish tick → walkReturns tick providers = true ∧
      ∃ p, providers[selectPosition tick providers]? = some p ∧
        (selectProvider tick providers).1 = .ok p) := by
  intro W
  obtain ⟨k, h⟩ := callsInv_run hlen hW (by omega) hrun
  refine ⟨fun i hi => ?_, fun x _ tick _ => ⟨walkReturns_of_pos hW tick, ?_⟩⟩
  · have hperm := h.selected_perm hdone (hn ▸ hc)
    have hle := sliceStart_add_le hi
    rw [hperm.count_eq, hn, count_selectPosition hW hi]
    have hlow := Lib.le_countP_residues hle c n
    have hhigh := Lib.countP_residues_le hle hW c n
    refine ⟨hlow, hhigh, fun hdvd => ?_⟩
    rw [Nat.mod_eq_zero_of_dvd hdvd, Nat.min_zero] at hhigh
    exact le_antisymm hhigh hlow
  · refine ⟨_, List.getElem?_eq_getElem (selectPosition_lt hW tick), ?_⟩
    rw [selectProvider_eq hlen hW]
    rfl

/-- Three calls on entries of weight 1 and 2, from counter 5: the second to take a
    tick finishes first. Whatever the order, the entries are selected once and
    twice. -/
theorem selected_count_overlapping :
    let providers : List WeightedProvider := [⟨"openai", 1, "gpt-4o"⟩, ⟨"ollama", 2, "llama3"⟩]
    let events : List CallEvent :=
      [.fetchAdd, .fetchAdd, .finish 6, .fetchAdd, .finish 5, .finish 7]
    let s := events.foldl (selections providers).step (.start 5)
    s.selected.count 0 = 1 ∧ s.selected.count 1 = 2 := by
  intro providers events s
  have hrun := Lib.run_trace (selections providers) (.start 5) events (by
    simp [events, selections, Lib.System.trace, Calls.start, selectProvider, providers,
      totalWeight])
  obtain ⟨h, -⟩ := selected_count (by decide) (by decide) (by decide : 5 + 3 < 2 ^ 64) hrun rfl rfl
  have h0 := (h 0 (by decide)).2.2 (by decide)
  have h1 := (h 1 (by decide)).2.2 (by decide)
  exact ⟨h0.trans (by decide), h1.trans (by decide)⟩

end Melis.Balancer
