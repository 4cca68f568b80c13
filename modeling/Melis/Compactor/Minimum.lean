import Melis.Compactor.Semantic

/-!
# The minimum of tokens `SemanticGuardedCompactor` leaves

`min_final_tokens` is documented as the minimum number of tokens to preserve. The
compactor only raises its target to it, and removes whole messages until the total
is at or under the target: the last one removed can take the total far below the
minimum.

* `tokensAfter_eq`: what is left once a message has gone, as a count.
* `stepsAreSmall_iff`: the steps of the removal loop are those of the single messages.
* `min_le_finalTokens_iff`: the minimum is preserved exactly when no removal takes
  the total from above the target to below the minimum.
* `not_forall_min_le_finalTokens`: it is not preserved for every history.
-/

namespace Melis.Compactor.SemanticGuardedCompactor

open Lib

variable {A : F64.Rounding} {U : Unicode} {messages : List CompactMessage}
  {config : CompactorConfig}

/-- The tokens left once message `m` at `i` has gone with all that go before it: those of
    the protected messages and of the messages that go after it. -/
def tokensAfter (U : Unicode) (messages : List CompactMessage) (config : CompactorConfig)
    (i : ℕ) (m : CompactMessage) : ℕ :=
  totalTokens ((messages.zipIdx.filter fun e =>
    decide (Protected U messages config e.2 e.1 ∨ GoesBefore U messages config i m e.2 e.1)).map
      Prod.fst)

/-- No message takes the total from above the target to below the minimum when it
    goes. -/
def StepsAreSmall (A : F64.Rounding) (U : Unicode) (messages : List CompactMessage)
    (config : CompactorConfig) : Prop :=
  ∀ i m, messages[i]? = some m → ¬ Protected U messages config i m →
    targetTokens A (totalTokens messages) config <
      tokensAfter U messages config i m + messageTokens m →
    config.minFinalTokens ≤ tokensAfter U messages config i m

/-! ## What is left on the way -/

/-- The tokens left once the messages of `removed` are gone. -/
def tokensWithout (messages : List CompactMessage) (removed : List ScoredMessage) : ℕ :=
  totalTokens messages - (removed.map (·.tokenCount)).sum

/-- The messages that go after `s` are those behind it in the order of removal. -/
theorem filter_goesAfter {before after : List ScoredMessage} {s : ScoredMessage}
    (h : removable (scored U messages config) = before ++ s :: after) :
    (removable (scored U messages config)).filter (fun t =>
      decide (s.score < t.score ∨ s.score = t.score ∧ s.index < t.index)) = after := by
  have hsorted := @removable_pairwise U messages config
  rw [h] at hsorted ⊢
  obtain ⟨-, hrest, hbefore⟩ := List.pairwise_append.mp hsorted
  have hafter := (List.pairwise_cons.mp hrest).1
  have hself : ¬ (s.score < s.score ∨ s.score = s.score ∧ s.index < s.index) := fun hs =>
    goesFirst_asymm hs hs
  rw [List.filter_append, List.filter_cons_of_neg (by simpa using hself),
    List.filter_eq_nil_iff.mpr fun t ht => ?_, List.nil_append,
    List.filter_eq_self.mpr fun t ht => ?_]
  · exact decide_eq_true (hafter t ht)
  · rw [decide_eq_true_eq]
    exact goesFirst_asymm (hbefore t ht s List.mem_cons_self)

/-- What is left behind a message in the order of removal. -/
theorem tokensAfter_eq {before after : List ScoredMessage} {i : ℕ} {m : CompactMessage}
    (h : removable (scored U messages config) =
      before ++ scoredMessage U messages config m i :: after) :
    tokensAfter U messages config i m =
      protectedTokens (scored U messages config) + (after.map (·.tokenCount)).sum := by
  set s := scoredMessage U messages config m i with hs
  let p : ScoredMessage → Bool := fun t =>
    t.isProtected || decide (s.score < t.score ∨ s.score = t.score ∧ s.index < t.index)
  have hfilter : (messages.zipIdx.filter fun e => decide (Protected U messages config e.2 e.1 ∨
      GoesBefore U messages config i m e.2 e.1)).map Prod.fst =
      ((scored U messages config).filter p).map (·.message) := by
    rw [scored, List.filter_map, List.map_map]
    refine congrArg _ (List.filter_congr fun e _ => ?_)
    rw [Bool.eq_iff_iff, decide_eq_true_eq, Function.comp_apply, Bool.or_eq_true,
      scoredMessage_isProtected, decide_eq_true_eq]
    rfl
  rw [tokensAfter, hfilter, totalTokens_filter_scored,
    ← sum_filter_add_sum_filter_not (·.isProtected), List.filter_filter, List.filter_filter]
  congr 1
  · rw [protectedTokens]
    refine congrArg (fun l : List ScoredMessage => (l.map (·.tokenCount)).sum)
      (List.filter_congr fun t _ => ?_)
    cases hp : t.isProtected <;> simp [p, hp]
  · rw [← filter_goesAfter h, removable]
    have hperm := (List.perm_insertionSort (fun s t : ScoredMessage => s.score ≤ t.score)
      ((scored U messages config).filter (!·.isProtected))).filter fun t =>
        decide (s.score < t.score ∨ s.score = t.score ∧ s.index < t.index)
    rw [(hperm.map _).sum_eq, List.filter_filter]
    refine congrArg (fun l : List ScoredMessage => (l.map (·.tokenCount)).sum)
      (List.filter_congr fun t _ => ?_)
    cases hp : t.isProtected <;> simp [p, hp]

/-- The steps of the removal loop are those of the single messages. -/
theorem stepsAreSmall_iff :
    StepsAreSmall A U messages config ↔
      ∀ before next after, removable (scored U messages config) = before ++ next :: after →
        targetTokens A (totalTokens messages) config < tokensWithout messages before →
        config.minFinalTokens ≤ tokensWithout messages (before ++ [next]) := by
  have htotal := protectedTokens_add_removable U messages config
  have hstep : ∀ before after i m, removable (scored U messages config) =
      before ++ scoredMessage U messages config m i :: after →
      tokensWithout messages before = tokensAfter U messages config i m + messageTokens m ∧
        tokensWithout messages (before ++ [scoredMessage U messages config m i]) =
          tokensAfter U messages config i m := by
    intro before after i m h
    have htokens : (scoredMessage U messages config m i).tokenCount = messageTokens m := rfl
    rw [tokensAfter_eq h, tokensWithout, tokensWithout]
    rw [h] at htotal
    simp only [List.map_append, List.sum_append, List.map_cons, List.sum_cons, List.map_nil,
      List.sum_nil, htokens] at htotal ⊢
    omega
  constructor
  · intro hsmall before next after h hover
    have hnext : next ∈ removable (scored U messages config) := by simp [h]
    obtain ⟨hscored, hunprotected⟩ := mem_removable.mp hnext
    obtain ⟨i, m, hm, rfl⟩ := mem_scored.mp hscored
    obtain ⟨hbefore, hafter⟩ := hstep _ _ _ _ h
    rw [hbefore] at hover
    rw [hafter]
    refine hsmall i m hm (fun hp => ?_) hover
    rw [scoredMessage_isProtected.mpr hp] at hunprotected
    cases hunprotected
  · intro hsmall i m hm hp hover
    have hmem : scoredMessage U messages config m i ∈ removable (scored U messages config) :=
      mem_removable.mpr ⟨mem_scored.mpr ⟨i, m, hm, rfl⟩,
        Bool.eq_false_iff.mpr fun h => hp (scoredMessage_isProtected.mp h)⟩
    obtain ⟨before, after, h⟩ := List.append_of_mem hmem
    obtain ⟨hbefore, hafter⟩ := hstep _ _ _ _ h
    rw [← hafter]
    exact hsmall before _ after h (by rwa [hbefore])

/-- The minimum is part of the target. -/
theorem minFinalTokens_le_targetTokens (A : F64.Rounding) (n : ℕ) (config : CompactorConfig) :
    config.minFinalTokens ≤ targetTokens A n config :=
  Nat.le_max_right _ _

theorem tokensWithout_concat (before : List ScoredMessage) (next : ScoredMessage) :
    tokensWithout messages (before ++ [next]) =
      totalTokens messages - (before.map (·.tokenCount)).sum - next.tokenCount := by
  rw [tokensWithout, List.map_append, List.sum_append, List.map_singleton, List.sum_singleton,
    Nat.sub_sub]

/-! ## The paths of `compact` -/

theorem finalTokens_of_lt_threshold (h : totalTokens messages < config.tokenThreshold) :
    (compact A U messages config).finalTokens = totalTokens messages := by
  rw [compact, if_pos h]
  rfl

/-- The protected messages alone: they meet the target, hence the minimum. -/
theorem finalTokens_of_target_le (hth : config.tokenThreshold ≤ totalTokens messages)
    (h : targetTokens A (totalTokens messages) config ≤
      protectedTokens (scored U messages config)) :
    (compact A U messages config).finalTokens = protectedTokens (scored U messages config) := by
  rw [compact_finalTokens, compact_of_target_le hth h, totalTokens_filter_scored, protectedTokens]

/-- What the removal loop leaves. -/
theorem finalTokens_of_lt_target (hth : config.tokenThreshold ≤ totalTokens messages)
    (h : protectedTokens (scored U messages config) <
      targetTokens A (totalTokens messages) config) :
    (compact A U messages config).finalTokens =
      tokensWithout messages (removal A U messages config) := by
  have hsum := totalTokens_add_removed A U messages config
  rw [compact_finalTokens, compact_of_lt_target hth h, tokensWithout]
  exact Nat.eq_sub_of_add_eq hsum

/-- Over the target, the loop preserves the minimum exactly if its steps are small. -/
theorem minFinalTokens_le_removal_iff
    (h : targetTokens A (totalTokens messages) config < totalTokens messages) :
    config.minFinalTokens ≤ tokensWithout messages (removal A U messages config) ↔
      StepsAreSmall A U messages config := by
  have hle : config.minFinalTokens ≤ totalTokens messages :=
    (minFinalTokens_le_targetTokens A _ _).trans (Nat.le_of_lt h)
  rw [tokensWithout, removal, le_sub_removeUntil_iff _ _ hle, stepsAreSmall_iff]
  simp only [tokensWithout_concat]
  rfl

/-! ## The minimum -/

/-- **The minimum is preserved exactly when** the compactor leaves the history alone,
    or the protected messages alone meet the target, or no single removal passes over
    the minimum. -/
theorem min_le_finalTokens_iff (U : Unicode) (messages : List CompactMessage)
    (config : CompactorConfig) :
    min config.minFinalTokens (totalTokens messages) ≤
        (compact .nearest U messages config).finalTokens ↔
      totalTokens messages < config.tokenThreshold ∨
        targetTokens .nearest (totalTokens messages) config ≤
          protectedTokens (scored U messages config) ∨
        StepsAreSmall .nearest U messages config := by
  have hmin := minFinalTokens_le_targetTokens .nearest (totalTokens messages) config
  rcases Nat.lt_or_ge (totalTokens messages) config.tokenThreshold with hlow | hth
  · rw [finalTokens_of_lt_threshold hlow]
    exact iff_of_true (Nat.min_le_right _ _) (.inl hlow)
  rw [or_iff_right (Nat.not_lt_of_le hth)]
  rcases Nat.lt_or_ge (protectedTokens (scored U messages config))
    (targetTokens .nearest (totalTokens messages) config) with hlt | hge
  · rw [or_iff_right (Nat.not_le_of_lt hlt), finalTokens_of_lt_target hth hlt]
    rcases Nat.lt_or_ge (targetTokens .nearest (totalTokens messages) config) (totalTokens messages)
      with hover | hunder
    · rw [Nat.min_eq_left (hmin.trans (Nat.le_of_lt hover)), minFinalTokens_le_removal_iff hover]
    · -- the history already fits: nothing is removed, and no prefix is over the target
      refine iff_of_true ?_ (stepsAreSmall_iff.mpr fun before next after _ hafter => ?_)
      · rw [removal, removeUntil_of_le _ _ hunder]
        exact Nat.min_le_right _ _
      · have := Nat.sub_le (totalTokens messages) (before.map (·.tokenCount)).sum
        rw [tokensWithout] at hafter
        omega
  · rw [finalTokens_of_target_le hth hge]
    exact iff_of_true ((Nat.min_le_left _ _).trans (hmin.trans hge)) (.inl hge)

/-! ## A long message -/

/-- A long first message and a short question. -/
def longThenShort : List CompactMessage :=
  [{ role := "user", content := "a stack trace that fills the whole page" },
    { role := "user", content := "why?" }]

/-- At least 10 tokens are to be preserved. -/
def tenTokensConfig : CompactorConfig :=
  { CompactorConfig.default with
    tokenThreshold := 10, targetTokenRatio := .finite (1 / 2), minFinalTokens := 10 }

/-- Of 13 tokens, with a minimum of 10, the compactor leaves 2. -/
theorem not_forall_min_le_finalTokens :
    ¬ ∀ (U : Unicode) (messages : List CompactMessage) (config : CompactorConfig),
      min config.minFinalTokens (totalTokens messages) ≤
        (compact .nearest U messages config).finalTokens := by
  intro h
  have := h Unicode.ascii longThenShort tenTokensConfig
  revert this
  decide +kernel

end Melis.Compactor.SemanticGuardedCompactor
