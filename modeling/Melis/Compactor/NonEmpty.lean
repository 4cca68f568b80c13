import Melis.Compactor.Semantic
import Melis.Compactor.Window

/-!
# Whether compaction leaves a message

`SimpleCompactor` returns the last message where nothing else is left.
`SemanticGuardedCompactor` has no such fallback: without a protected message it can
remove everything.

* `simple_ne_nil`: the simple compactor leaves a message.
* `semantic_ne_nil_iff`: when the semantic one does.
-/

namespace Melis.Compactor

open Lib

/-! ## `SimpleCompactor` -/

/-- On every path something is returned. -/
theorem simple_ne_nil (U : Unicode) {messages : List CompactMessage} (hne : messages ≠ [])
    (config : CompactorConfig) : (SimpleCompactor.compact U messages config).messages ≠ [] := by
  have hpath := SimpleCompactor.compact_path U messages config
  generalize SimpleCompactor.compact U messages config = r at hpath ⊢
  cases hpath with
  | identity _ => exact hne
  | window hw _ => exact hw
  | stopWords hw _ _ => exact mt SimpleCompactor.workingMessages_eq_nil.mp hw
  | pruned hrest _ _ => exact hrest
  | lastOnly last _ _ _ _ _ => exact List.cons_ne_nil _ _

/-! ## `SemanticGuardedCompactor` -/

namespace SemanticGuardedCompactor

/-- Something is left: the history is below the threshold, a message is protected,
    or the message that is to go last fits a target above zero. -/
def LeavesSome (A : F64.Rounding) (U : Unicode) (messages : List CompactMessage)
    (config : CompactorConfig) : Prop :=
  let target := targetTokens A (totalTokens messages) config
  totalTokens messages < config.tokenThreshold ∨
    (∃ i m, messages[i]? = some m ∧ Protected U messages config i m) ∨
    ∃ i m, messages[i]? = some m ∧ 0 < target ∧ messageTokens m ≤ target ∧
      ∀ j n, messages[j]? = some n → j = i ∨ GoesBefore U messages config j n i m

section LeavesSome

variable {A : F64.Rounding} {U : Unicode} {messages : List CompactMessage}
  {config : CompactorConfig}

/-- Without protected messages, all are removable. -/
theorem mem_removable_of_unprotected
    (hnone : ¬ ∃ i m, messages[i]? = some m ∧ Protected U messages config i m)
    {s : ScoredMessage} :
    s ∈ removable (scored U messages config) ↔ s ∈ scored U messages config := by
  rw [mem_removable, and_iff_left_iff_imp]
  intro hs
  obtain ⟨i, m, hm, rfl⟩ := mem_scored.mp hs
  exact Bool.eq_false_iff.mpr fun h => hnone ⟨i, m, hm, scoredMessage_isProtected.mp h⟩

/-- The message that is to go last. -/
theorem exists_last_removable (hne : messages ≠ [])
    (hnone : ¬ ∃ i m, messages[i]? = some m ∧ Protected U messages config i m) :
    ∃ first i m, messages[i]? = some m ∧
      removable (scored U messages config) = first ++ [scoredMessage U messages config m i] ∧
      ∀ j n, messages[j]? = some n → j = i ∨ GoesBefore U messages config j n i m := by
  have hnonempty : removable (scored U messages config) ≠ [] := by
    obtain ⟨m, hm⟩ := List.exists_mem_of_ne_nil _ hne
    obtain ⟨i, hi⟩ := List.mem_iff_getElem?.mp hm
    exact List.ne_nil_of_mem
      ((mem_removable_of_unprotected hnone).mpr (mem_scored.mpr ⟨i, m, hi, rfl⟩))
  obtain ⟨first, s, hsplit⟩ := (List.eq_nil_or_concat' _).resolve_left hnonempty
  have hs : s ∈ removable (scored U messages config) := by simp [hsplit]
  obtain ⟨i, m, hm, rfl⟩ := mem_scored.mp ((mem_removable_of_unprotected hnone).mp hs)
  refine ⟨first, i, m, hm, hsplit, fun j n hn => ?_⟩
  have hj : scoredMessage U messages config n j ∈ removable (scored U messages config) :=
    (mem_removable_of_unprotected hnone).mpr (mem_scored.mpr ⟨j, n, hn, rfl⟩)
  have hsorted := @removable_pairwise U messages config
  rw [hsplit] at hj hsorted
  rcases List.mem_append.mp hj with hfirst | hlast
  · exact .inr ((List.pairwise_append.mp hsorted).2.2 _ hfirst _ List.mem_cons_self)
  · exact .inl (congrArg ScoredMessage.index (List.mem_singleton.mp hlast))

theorem protectedTokens_of_unprotected
    (hnone : ¬ ∃ i m, messages[i]? = some m ∧ Protected U messages config i m) :
    protectedTokens (scored U messages config) = 0 := by
  rw [protectedTokens, List.filter_eq_nil_iff.mpr, List.map_nil, List.sum_nil]
  intro s hs hp
  obtain ⟨i, m, hm, rfl⟩ := mem_scored.mp hs
  exact hnone ⟨i, m, hm, scoredMessage_isProtected.mp hp⟩

/-- A message that is not removed is left. -/
theorem messages_eq_nil_iff (hth : config.tokenThreshold ≤ totalTokens messages)
    (htarget : protectedTokens (scored U messages config) <
      targetTokens A (totalTokens messages) config) :
    (compact A U messages config).messages = [] ↔
      ∀ s ∈ scored U messages config, s ∈ removal A U messages config := by
  rw [compact_of_lt_target hth htarget, List.map_eq_nil_iff, List.filter_eq_nil_iff]
  refine forall₂_congr fun s hs => ?_
  rw [← index_mem_removedIndices hs]
  simp

/-- Without protected messages, the loop removes everything exactly if the message
    that goes last does not fit the target. -/
theorem messages_eq_nil_of_unprotected (hth : config.tokenThreshold ≤ totalTokens messages)
    (hnone : ¬ ∃ i m, messages[i]? = some m ∧ Protected U messages config i m)
    (htarget : 0 < targetTokens A (totalTokens messages) config) {first : List ScoredMessage}
    {i : ℕ} {m : CompactMessage} (hsplit : removable (scored U messages config) =
      first ++ [scoredMessage U messages config m i]) :
    (compact A U messages config).messages = [] ↔
      targetTokens A (totalTokens messages) config < messageTokens m := by
  have hzero := protectedTokens_of_unprotected hnone
  have htotal := protectedTokens_add_removable U messages config
  rw [hzero, hsplit, List.map_append, List.sum_append] at htotal
  change 0 + (_ + (messageTokens m + 0)) = _ at htotal
  have hall : (∀ s ∈ scored U messages config, s ∈ removal A U messages config) ↔
      removal A U messages config = removable (scored U messages config) := by
    constructor
    · intro h
      have hperm : (removal A U messages config).Perm (scored U messages config) :=
        (List.perm_ext_iff_of_nodup removal_nodup scored_nodup).mpr fun s =>
          ⟨fun hs => (mem_removable.mp (mem_removable_of_mem_removal hs)).1, h s⟩
      refine (removeUntil_isPrefix _ _ _ _).eq_of_length ?_
      refine hperm.length_eq.trans (List.Perm.length_eq ?_)
      refine (List.perm_ext_iff_of_nodup scored_nodup ?_).mpr fun s =>
        (mem_removable_of_unprotected hnone).symm
      exact (List.perm_insertionSort _ _).nodup_iff.mpr (scored_nodup.filter _)
    · intro h s hs
      rw [h]
      exact (mem_removable_of_unprotected hnone).mpr hs
  rw [messages_eq_nil_iff hth (by rwa [hzero]), hall, removal, hsplit, removeUntil_eq_self_iff]
  omega

/-- A protected message is left. -/
theorem ne_nil_of_protected (hth : config.tokenThreshold ≤ totalTokens messages) {i : ℕ}
    {m : CompactMessage} (hm : messages[i]? = some m) (hp : Protected U messages config i m) :
    (compact A U messages config).messages ≠ [] := by
  have hs : scoredMessage U messages config m i ∈ scored U messages config :=
    mem_scored.mpr ⟨i, m, hm, rfl⟩
  have hprotected := scoredMessage_isProtected.mpr hp
  rcases Nat.lt_or_ge (protectedTokens (scored U messages config))
    (targetTokens A (totalTokens messages) config) with h | h
  · rw [Ne, messages_eq_nil_iff hth h]
    intro hall
    have hremoved := (mem_removable.mp (mem_removable_of_mem_removal (hall _ hs))).2
    rw [hprotected] at hremoved
    cases hremoved
  · rw [compact_of_target_le hth h]
    exact List.ne_nil_of_mem (List.mem_map_of_mem (List.mem_filter.mpr ⟨hs, hprotected⟩))

/-- When the semantic compactor leaves a message. -/
theorem semantic_ne_nil_iff (hne : messages ≠ []) :
    (compact A U messages config).messages ≠ [] ↔ LeavesSome A U messages config := by
  rw [LeavesSome]
  rcases Nat.lt_or_ge (totalTokens messages) config.tokenThreshold with hlow | hth
  · refine iff_of_true ?_ (.inl hlow)
    rw [compact, if_pos hlow]
    exact hne
  rw [or_iff_right (Nat.not_lt_of_le hth)]
  by_cases hprotected : ∃ i m, messages[i]? = some m ∧ Protected U messages config i m
  · obtain ⟨i, m, hm, hp⟩ := hprotected
    exact iff_of_true (ne_nil_of_protected hth hm hp) (.inl ⟨i, m, hm, hp⟩)
  rw [or_iff_right hprotected]
  obtain ⟨first, i, m, hm, hsplit, hlast⟩ := exists_last_removable hne hprotected
  rcases Nat.eq_zero_or_pos (targetTokens A (totalTokens messages) config) with hzero | hpos
  · -- nothing is protected, and nothing else fits
    refine iff_of_false (not_not.mpr ?_) ?_
    · rw [compact_of_target_le hth (by omega), List.map_eq_nil_iff, List.filter_eq_nil_iff]
      intro s hs hp
      obtain ⟨j, n, hn, rfl⟩ := mem_scored.mp hs
      exact hprotected ⟨j, n, hn, scoredMessage_isProtected.mp hp⟩
    · rintro ⟨-, -, -, hpos, -⟩
      omega
  rw [Ne, messages_eq_nil_of_unprotected hth hprotected hpos hsplit, Nat.not_lt]
  constructor
  · exact fun hle => ⟨i, m, hm, hpos, hle, hlast⟩
  · rintro ⟨j, n, hn, -, hle, hlast'⟩
    -- two messages that are both to go last are one
    have hsame : j = i := by
      by_contra hne
      refine goesFirst_asymm ((hlast j n hn).resolve_left hne) ?_
      exact (hlast' i m hm).resolve_left (Ne.symm hne)
    subst hsame
    obtain rfl : n = m := Option.some.inj (hn.symm.trans hm)
    exact hle

end LeavesSome

end SemanticGuardedCompactor

end Melis.Compactor
