import Melis.Compactor.Model
import Melis.Lib.Selection

/-!
# What `SemanticGuardedCompactor` removes

Over its token threshold, `SemanticGuardedCompactor::compact` keeps the
protected messages and removes the others in the order of their scores, oldest
first among equal scores, until the target is met.

* `totalTokens_add_removed`: the running counter of the removal loop is the
  token count of what is still there.
* `compact_removal`: the returned messages, the bound on their tokens, the
  order of removal, and its minimality.
-/

namespace Melis.Compactor.SemanticGuardedCompactor

open Lib

/-! ## Scored messages -/

section Scored

variable {U : Unicode} {messages : List CompactMessage} {config : CompactorConfig}

/-- Message `m` at position `i` may not be removed: it is a system message, the
    last user message, or marked critical while markers are preserved. -/
def Protected (U : Unicode) (messages : List CompactMessage) (config : CompactorConfig) (i : ℕ)
    (m : CompactMessage) : Prop :=
  m.role = "system" ∨ lastUserIdx messages = some i ∨
    config.preserveCriticalMarkers = true ∧ hasCriticalMarker U config m = true

instance (i : ℕ) (m : CompactMessage) : Decidable (Protected U messages config i m) :=
  inferInstanceAs (Decidable (_ ∨ _ ∨ _ ∧ _))

theorem scoredMessage_isProtected {i : ℕ} {m : CompactMessage} :
    (scoredMessage U messages config m i).isProtected = true ↔
      Protected U messages config i m := by
  simp only [scoredMessage, isProtected, Protected, Bool.or_eq_true, Bool.and_eq_true,
    beq_iff_eq, or_assoc, eq_comm (a := some i)]

theorem mem_scored {s : ScoredMessage} :
    s ∈ scored U messages config ↔
      ∃ i m, messages[i]? = some m ∧ scoredMessage U messages config m i = s := by
  simp only [scored, List.mem_map, Prod.exists, List.mem_zipIdx_iff_getElem?]
  exact exists_comm

/-- A scored message is determined by its index. -/
theorem eq_of_index_eq {s t : ScoredMessage} (hs : s ∈ scored U messages config)
    (ht : t ∈ scored U messages config) (h : s.index = t.index) : s = t := by
  obtain ⟨i, m, hm, rfl⟩ := mem_scored.mp hs
  obtain ⟨j, n, hn, rfl⟩ := mem_scored.mp ht
  obtain rfl : i = j := h
  obtain rfl : m = n := by simpa [hm] using hn
  rfl

theorem scored_index_increasing :
    (scored U messages config).Pairwise fun s t => s.index < t.index := by
  rw [scored, List.pairwise_map]
  have : (messages.zipIdx.map Prod.snd).Pairwise (· < ·) := by
    rw [List.zipIdx_map_snd, ← List.range_eq_range']
    exact List.pairwise_lt_range
  exact List.pairwise_map.mp this

theorem scored_nodup : (scored U messages config).Nodup :=
  scored_index_increasing.imp fun h he => Nat.ne_of_lt h (congrArg _ he)

theorem scored_tokens :
    ((scored U messages config).map (·.tokenCount)).sum = totalTokens messages := by
  rw [scored, List.map_map, totalTokens]
  conv_rhs => rw [← List.zipIdx_map_fst 0 messages, List.map_map]
  rfl

/-- Keeping some scored messages is a selection, with the tokens they have. -/
theorem selects_filter_scored (U : Unicode) (messages : List CompactMessage)
    (config : CompactorConfig) (p : ScoredMessage → Bool) :
    ∃ is, Selects (fun m m' => m' = m) messages is
        (((scored U messages config).filter p).map (·.message)) ∧
      ∀ i m, messages[i]? = some m →
        (i ∈ is ↔ p (scoredMessage U messages config m i) = true) := by
  have he : ((scored U messages config).filter p).map (·.message) =
      (messages.zipIdx.filter fun e => p (scoredMessage U messages config e.1 e.2)).map
        Prod.fst := by
    rw [scored, List.filter_map, List.map_map]
    rfl
  rw [he]
  refine ⟨_, selects_zipIdx_filter _ messages, fun i m hm => ?_⟩
  rw [mem_zipIdx_filter_pos]
  simp [hm]

theorem totalTokens_filter_scored (p : ScoredMessage → Bool) :
    totalTokens (((scored U messages config).filter p).map (·.message)) =
      (((scored U messages config).filter p).map (·.tokenCount)).sum := by
  rw [totalTokens, List.map_map]
  congr 1
  refine List.map_congr_left fun s hs => ?_
  obtain ⟨i, m, -, rfl⟩ := mem_scored.mp (List.mem_of_mem_filter hs)
  rfl

theorem sum_filter_add_sum_filter_not (p : ScoredMessage → Bool) (l : List ScoredMessage) :
    ((l.filter p).map (·.tokenCount)).sum + ((l.filter (!p ·)).map (·.tokenCount)).sum =
      (l.map (·.tokenCount)).sum := by
  rw [← List.sum_append, ← List.map_append]
  exact ((List.filter_append_perm p l).map _).sum_eq

end Scored

/-! ## The removal loop -/

section Removal

variable (A : F64.Rounding) (U : Unicode) (messages : List CompactMessage)
  (config : CompactorConfig)

/-- The scored messages the loop of `compact` removes, in order. -/
def removal : List ScoredMessage :=
  removeUntil (·.tokenCount) (targetTokens A (totalTokens messages) config) (totalTokens messages)
    (removable (scored U messages config))

/-- Message `m` at `i` is to go before `n` at `j`: lower score, or the same
    score and an earlier position. -/
def GoesBefore (i : ℕ) (m : CompactMessage) (j : ℕ) (n : CompactMessage) : Prop :=
  (scoredMessage U messages config m i).score < (scoredMessage U messages config n j).score ∨
    (scoredMessage U messages config m i).score = (scoredMessage U messages config n j).score ∧
      i < j

variable {A U messages config}

instance (i j : ℕ) (m n : CompactMessage) : Decidable (GoesBefore U messages config i m j n) :=
  inferInstanceAs (Decidable (_ ∨ _ ∧ _))

theorem mem_removable {s : ScoredMessage} :
    s ∈ removable (scored U messages config) ↔
      s ∈ scored U messages config ∧ s.isProtected = false := by
  simp [removable, List.mem_insertionSort]

theorem mem_removable_of_mem_removal {s : ScoredMessage} (h : s ∈ removal A U messages config) :
    s ∈ removable (scored U messages config) :=
  (removeUntil_isPrefix _ _ _ _).subset h

/-- The order of removal is strict. -/
theorem goesFirst_asymm {s t : ScoredMessage}
    (h : s.score < t.score ∨ s.score = t.score ∧ s.index < t.index) :
    ¬ (t.score < s.score ∨ t.score = s.score ∧ t.index < s.index) := by
  rcases h with hlt | ⟨heq, hlt⟩ <;> rintro (hlt' | ⟨heq', hlt'⟩)
  · exact absurd hlt' (Int32.not_lt.mpr (Int32.le_of_lt hlt))
  · exact absurd hlt (heq' ▸ Int32.lt_irrefl)
  · exact absurd hlt' (heq ▸ Int32.lt_irrefl)
  · exact absurd hlt' (Nat.lt_asymm hlt)

/-- The loop removes in the order of scores and positions. -/
theorem removable_pairwise :
    (removable (scored U messages config)).Pairwise fun s t =>
      s.score < t.score ∨ s.score = t.score ∧ s.index < t.index := by
  have htotal : Std.Total fun s t : ScoredMessage => s.score ≤ t.score :=
    ⟨fun s t => Int32.le_total s.score t.score⟩
  have htrans : IsTrans ScoredMessage fun s t => s.score ≤ t.score :=
    ⟨fun s t u => Int32.le_trans⟩
  have hunprot : ((scored U messages config).filter (!·.isProtected)).Pairwise
      fun s t => s.index < t.index := scored_index_increasing.sublist List.filter_sublist
  refine (pairwise_insertionSort_stable (fun s t : ScoredMessage => s.score ≤ t.score)
    hunprot).imp ?_
  rintro s t ⟨hle, ht⟩
  rcases Int32.lt_or_eq_of_le hle with hlt | heq
  · exact .inl hlt
  · exact .inr ⟨heq, ht (heq ▸ hle)⟩

/-- Removing a message by its index removes that message only. -/
theorem index_mem_removedIndices {s : ScoredMessage} (hs : s ∈ scored U messages config) :
    s.index ∈ removedIndices (scored U messages config) (totalTokens messages)
        (targetTokens A (totalTokens messages) config) ↔
      s ∈ removal A U messages config := by
  constructor
  · intro h
    obtain ⟨t, ht, he⟩ := List.mem_map.mp h
    have := (mem_removable.mp (mem_removable_of_mem_removal ht)).1
    exact eq_of_index_eq this hs he ▸ ht
  · exact fun h => List.mem_map.mpr ⟨s, h, rfl⟩

theorem removal_nodup : (removal A U messages config).Nodup := by
  have : (removable (scored U messages config)).Nodup :=
    (List.perm_insertionSort _ _).nodup_iff.mpr (scored_nodup.filter _)
  exact this.sublist (removeUntil_isPrefix _ _ _ _).sublist

/-- What is kept and what the loop removed make up the input. -/
theorem totalTokens_add_removed (A : F64.Rounding) (U : Unicode) (messages : List CompactMessage)
    (config : CompactorConfig) :
    totalTokens (((scored U messages config).filter fun s =>
        !(removedIndices (scored U messages config) (totalTokens messages)
          (targetTokens A (totalTokens messages) config)).contains s.index).map (·.message)) +
      ((removal A U messages config).map (·.tokenCount)).sum = totalTokens messages := by
  set removed := removedIndices (scored U messages config) (totalTokens messages)
    (targetTokens A (totalTokens messages) config) with hremoved
  have hperm : ((scored U messages config).filter fun s => removed.contains s.index).Perm
      (removal A U messages config) := by
    refine (List.perm_ext_iff_of_nodup (scored_nodup.filter _) removal_nodup).mpr fun s => ?_
    rw [List.mem_filter, List.contains_iff_mem]
    constructor
    · rintro ⟨hs, h⟩
      exact (index_mem_removedIndices hs).mp h
    · intro h
      have hs := (mem_removable.mp (mem_removable_of_mem_removal h)).1
      exact ⟨hs, (index_mem_removedIndices hs).mpr h⟩
  rw [totalTokens_filter_scored, ← (hperm.map _).sum_eq, Nat.add_comm,
    sum_filter_add_sum_filter_not, scored_tokens]

theorem protectedTokens_add_removable (U : Unicode) (messages : List CompactMessage)
    (config : CompactorConfig) :
    protectedTokens (scored U messages config) +
      ((removable (scored U messages config)).map (·.tokenCount)).sum = totalTokens messages := by
  rw [protectedTokens, removable, ((List.perm_insertionSort _ _).map _).sum_eq,
    sum_filter_add_sum_filter_not, scored_tokens]

end Removal

/-! ## `compact` over the threshold -/

section Compact

variable {A : F64.Rounding} {U : Unicode} {messages : List CompactMessage}
  {config : CompactorConfig}

/-- The protected messages meet the target by themselves. -/
theorem compact_of_target_le (hth : config.tokenThreshold ≤ totalTokens messages)
    (h : targetTokens A (totalTokens messages) config ≤
      protectedTokens (scored U messages config)) :
    (compact A U messages config).messages =
      ((scored U messages config).filter (·.isProtected)).map (·.message) := by
  rw [compact, if_neg (Nat.not_lt_of_le hth)]
  dsimp only
  rw [if_pos h]
  rfl

theorem compact_of_lt_target (hth : config.tokenThreshold ≤ totalTokens messages)
    (h : protectedTokens (scored U messages config) <
      targetTokens A (totalTokens messages) config) :
    (compact A U messages config).messages = ((scored U messages config).filter fun s =>
      !(removedIndices (scored U messages config) (totalTokens messages)
        (targetTokens A (totalTokens messages) config)).contains s.index).map (·.message) := by
  rw [compact, if_neg (Nat.not_lt_of_le hth)]
  dsimp only
  rw [if_neg (Nat.not_le_of_lt h)]
  rfl

/-- On every path `compact` returns messages of its input in order and
    unchanged. -/
theorem compact_selects_eq (A : F64.Rounding) (U : Unicode) (messages : List CompactMessage)
    (config : CompactorConfig) :
    ∃ is, Selects (fun m m' => m' = m) messages is (compact A U messages config).messages := by
  have hfilter : ∀ p : ScoredMessage → Bool, ∃ is, Selects (fun m m' => m' = m) messages is
      (((scored U messages config).filter p).map (·.message)) := by
    intro p
    obtain ⟨is, hsel, -⟩ := selects_filter_scored U messages config p
    exact ⟨is, hsel⟩
  unfold compact
  dsimp only
  split_ifs
  · exact ⟨_, selects_self (R := fun m m' => m' = m) (fun _ => rfl) messages⟩
  · exact hfilter _
  · exact hfilter _

theorem compact_sublist (A : F64.Rounding) (U : Unicode) (messages : List CompactMessage)
    (config : CompactorConfig) : (compact A U messages config).messages.Sublist messages := by
  obtain ⟨is, hsel⟩ := compact_selects_eq A U messages config
  exact hsel.sublist

theorem compact_finalTokens :
    (compact A U messages config).finalTokens =
      totalTokens (compact A U messages config).messages := by
  unfold compact
  dsimp only
  split_ifs <;> rfl

theorem scored_map_message : (scored U messages config).map (·.message) = messages := by
  rw [scored, List.map_map]
  exact List.zipIdx_map_fst 0 messages

/-- Nothing is removed when the input is under the target. -/
theorem compact_messages_of_lt_target (hth : config.tokenThreshold ≤ totalTokens messages)
    (h : totalTokens messages < targetTokens A (totalTokens messages) config) :
    (compact A U messages config).messages = messages := by
  have hall := protectedTokens_add_removable U messages config
  rw [compact_of_lt_target hth (by omega), removedIndices,
    Lib.removeUntil_of_le _ _ (Nat.le_of_lt h), List.map_nil]
  simp only [List.contains_nil, Bool.not_false, List.filter_true]
  exact scored_map_message

/-- The target for a ratio `q` in exact arithmetic. -/
theorem targetTokens_exact {n : ℕ} {q : ℚ} (hq : config.targetTokenRatio = .finite q) :
    targetTokens .exact n config = max ⌊(n : ℚ) * q⌋₊ config.minFinalTokens := by
  show max ((F64.ofNat n).mul config.targetTokenRatio).toNat _ = _
  rw [hq, F64.toNat_mul_finite, Int.floor_toNat]

/-- Of ten tokens the ratio `0.3` keeps three: the `f64` is below it, and the product is
    rounded up. -/
example : targetTokens .nearest 10 { CompactorConfig.default with
    targetTokenRatio := (F64.finite (3 / 10)).nearest, minFinalTokens := 0 } = 3 := by
  decide +kernel

/-- What the loop removes brings the tokens down to the target. -/
theorem finalTokens_le_target (hth : config.tokenThreshold ≤ totalTokens messages)
    (h : protectedTokens (scored U messages config) <
      targetTokens A (totalTokens messages) config) :
    (compact A U messages config).finalTokens ≤ targetTokens A (totalTokens messages) config := by
  have hsum := totalTokens_add_removed A U messages config
  have hall := protectedTokens_add_removable U messages config
  have hreach : totalTokens messages ≤ targetTokens A (totalTokens messages) config +
      ((removable (scored U messages config)).map (·.tokenCount)).sum := by omega
  have hwithin := removeUntil_within _ _ hreach
  rw [← removal] at hwithin
  rw [compact_finalTokens, compact_of_lt_target hth h]
  omega

/-- Under the target, a position is selected unless the loop removed it. -/
theorem selects_of_lt_target (hth : config.tokenThreshold ≤ totalTokens messages)
    (h : protectedTokens (scored U messages config) <
      targetTokens A (totalTokens messages) config) :
    ∃ is, Selects (fun m m' => m' = m) messages is (compact A U messages config).messages ∧
      ∀ i m, messages[i]? = some m →
        (i ∉ is ↔ scoredMessage U messages config m i ∈ removal A U messages config) := by
  obtain ⟨is, hsel, hmem⟩ := selects_filter_scored U messages config fun s =>
    !(removedIndices (scored U messages config) (totalTokens messages)
      (targetTokens A (totalTokens messages) config)).contains s.index
  rw [← compact_of_lt_target hth h] at hsel
  refine ⟨is, hsel, fun i m hm => ?_⟩
  rw [hmem i m hm, ← index_mem_removedIndices (mem_scored.mpr ⟨i, m, hm, rfl⟩)]
  simp

/-- A removed message goes before an unprotected message that is not removed. -/
theorem goesBefore_of_mem_removal {i j : ℕ} {m n : CompactMessage}
    (hi : scoredMessage U messages config m i ∈ removal A U messages config)
    (hn : messages[j]? = some n)
    (hj : scoredMessage U messages config n j ∉ removal A U messages config)
    (hp : ¬ Protected U messages config j n) : GoesBefore U messages config i m j n := by
  refine removeUntil_pairwise _ _ removable_pairwise hi
    (mem_removable.mpr ⟨mem_scored.mpr ⟨j, n, hn, rfl⟩, ?_⟩) hj
  exact Bool.eq_false_iff.mpr fun h => hp (scoredMessage_isProtected.mp h)

/-- A message that goes after all others removed was needed. -/
theorem lt_of_last_removed (hth : config.tokenThreshold ≤ totalTokens messages)
    (h : protectedTokens (scored U messages config) <
      targetTokens A (totalTokens messages) config) {i : ℕ} {m : CompactMessage}
    (hi : scoredMessage U messages config m i ∈ removal A U messages config)
    (hlast : ∀ s ∈ removal A U messages config, s = scoredMessage U messages config m i ∨
      GoesBefore U messages config s.index s.message i m) :
    targetTokens A (totalTokens messages) config <
      (compact A U messages config).finalTokens + messageTokens m := by
  have hsum := totalTokens_add_removed A U messages config
  rw [← compact_of_lt_target hth h, ← compact_finalTokens] at hsum
  have hmin := removeUntil_minimal_of_last (·.tokenCount)
    (targetTokens A (totalTokens messages) config) removable_pairwise (fun _ _ => goesFirst_asymm)
    hi fun s hs => ?_
  · rw [← removal] at hmin
    change _ < totalTokens messages + messageTokens m at hmin
    omega
  · obtain ⟨j, n, -, rfl⟩ := mem_scored.mp (mem_removable.mp (mem_removable_of_mem_removal hs)).1
    exact hlast _ hs

/-- **Removal.** In exact arithmetic: over the threshold, `compact` returns messages of
    its input in order and unchanged, every protected one among them. Their tokens are within
    the target, or are those of the protected messages. While the protected
    messages are under the target, what is removed goes before every unprotected
    message that is kept, and putting the last removed message back would exceed
    the target. -/
theorem compact_removal (U : Unicode) (messages : List CompactMessage) (config : CompactorConfig)
    {q : ℚ} (hq : config.targetTokenRatio = .finite q)
    (hth : config.tokenThreshold ≤ totalTokens messages) :
    let target := max ⌊(totalTokens messages : ℚ) * q⌋₊ config.minFinalTokens
    let protectedTotal := protectedTokens (scored U messages config)
    ∃ is : List ℕ,
      Selects (fun m m' => m' = m) messages is (compact .exact U messages config).messages ∧
      (∀ i m, messages[i]? = some m → Protected U messages config i m → i ∈ is) ∧
      (compact .exact U messages config).finalTokens ≤ max target protectedTotal ∧
      (protectedTotal < target →
        (∀ i m j n, messages[i]? = some m → messages[j]? = some n → i ∉ is → j ∈ is →
          ¬ Protected U messages config j n → GoesBefore U messages config i m j n) ∧
        ∀ i m, messages[i]? = some m → i ∉ is →
          (∀ j n, messages[j]? = some n → j ∉ is →
            j = i ∨ GoesBefore U messages config j n i m) →
          target < (compact .exact U messages config).finalTokens + messageTokens m) := by
  intro target protectedTotal
  have htarget : target = targetTokens .exact (totalTokens messages) config :=
    (targetTokens_exact hq).symm
  rw [htarget]
  rcases Nat.lt_or_ge protectedTotal (targetTokens .exact (totalTokens messages) config) with h | h
  · obtain ⟨is, hsel, hkept⟩ := selects_of_lt_target hth h
    refine ⟨is, hsel, fun i m hm hp => ?_, ?_, fun _ => ⟨?_, ?_⟩⟩
    · by_contra hi
      have := (mem_removable.mp (mem_removable_of_mem_removal ((hkept i m hm).mp hi))).2
      rw [scoredMessage_isProtected.mpr hp] at this
      cases this
    · exact (finalTokens_le_target hth h).trans (Nat.le_max_left _ _)
    · intro i m j n hm hn hi hj hp
      exact goesBefore_of_mem_removal ((hkept i m hm).mp hi) hn
        (fun hrem => (hkept j n hn).mpr hrem hj) hp
    · intro i m hm hi hlast
      refine lt_of_last_removed hth h ((hkept i m hm).mp hi) fun s hs => ?_
      obtain ⟨j, n, hn, rfl⟩ :=
        mem_scored.mp (mem_removable.mp (mem_removable_of_mem_removal hs)).1
      rcases hlast j n hn ((hkept j n hn).mpr hs) with rfl | hbefore
      · obtain rfl : n = m := by simpa [hn] using hm
        exact .inl rfl
      · exact .inr hbefore
  · have hmsgs := compact_of_target_le hth h
    obtain ⟨is, hsel, hmem⟩ := selects_filter_scored U messages config (·.isProtected)
    rw [← hmsgs] at hsel
    refine ⟨is, hsel, fun i m hm hp => (hmem i m hm).mpr (scoredMessage_isProtected.mpr hp), ?_,
      fun hlt => absurd hlt (Nat.not_lt_of_le h)⟩
    rw [compact_finalTokens, hmsgs, totalTokens_filter_scored]
    exact Nat.le_max_right _ _

/-! ## Example -/

/-- A question, a short answer and the next question. -/
def conversation : List CompactMessage :=
  [{ role := "user", content := "where is the error?" }, { role := "assistant", content := "Ok" },
    { role := "user", content := "and the config?" }]

/-- `CompactorConfig::default` with a target of half the tokens. -/
def halfConfig : CompactorConfig :=
  { CompactorConfig.default with
    tokenThreshold := 0, targetTokenRatio := .finite (1 / 2), minFinalTokens := 0 }

/-- The last question stays. -/
theorem compact_removal_conversation :
    ∃ is, Selects (fun m m' => m' = m) conversation is
      (compact .exact Unicode.ascii conversation halfConfig).messages ∧ 2 ∈ is := by
  obtain ⟨is, hsel, hprot, -⟩ :=
    compact_removal Unicode.ascii conversation halfConfig (q := 1 / 2) rfl (by decide)
  exact ⟨is, hsel, hprot 2 _ rfl (.inr (.inl rfl))⟩

end Compact

end Melis.Compactor.SemanticGuardedCompactor
