import Melis.Compactor.Semantic
import Melis.Compactor.Simple

/-!
# Token accounts of the compactors

The numbers a compactor reports are those of the messages it was given and of
the messages it returns, the second never above the first, and a result that is
not marked compressed is the input.

* `Accounted.counted`, `Accounted.uncompressed`: the two forms of result.
* `compact_accounts`: both compactors, with the subtractions they perform.
-/

namespace Melis.Compactor

open Lib

/-- `r` reports the tokens of `messages` and of what it returns. -/
structure Accounted (messages : List CompactMessage) (r : CompactionResult) : Prop where
  original_eq : r.originalTokens = totalTokens messages
  final_eq : r.finalTokens = totalTokens r.messages
  final_le : r.finalTokens ≤ r.originalTokens
  skip : r.wasCompressed = false →
    r.messages = messages ∧ r.messagesPruned = 0 ∧ r.finalTokens = r.originalTokens

section Accounted

variable {U : Unicode} {stopWords : List String} {messages final : List CompactMessage}

/-- A selection of trimmed messages has no more tokens than the messages. -/
theorem totalTokens_le_of_selects {is : List ℕ}
    (h : Selects (Trimmed U stopWords) messages is final) :
    totalTokens final ≤ totalTokens messages :=
  h.sum_le fun _ _ => Trimmed.messageTokens_le

theorem totalTokens_le_of_sublist (h : final.Sublist messages) :
    totalTokens final ≤ totalTokens messages :=
  (h.map messageTokens).sum_le_sum fun _ _ => Nat.zero_le _

theorem Accounted.uncompressed : Accounted messages (uncompressed messages) where
  original_eq := rfl
  final_eq := rfl
  final_le := le_rfl
  skip _ := ⟨rfl, rfl, rfl⟩

/-- A counted result is accounted for if it has no more tokens than the input,
    and is the input when it is not marked compressed. -/
theorem Accounted.counted {pruned : ℕ} {flag : Bool}
    (hle : totalTokens final ≤ totalTokens messages)
    (hskip : flag = false → final = messages ∧ pruned = 0) :
    Accounted messages (counted messages final pruned flag) where
  original_eq := rfl
  final_eq := rfl
  final_le := hle
  skip h := by
    obtain ⟨rfl, hpruned⟩ := hskip h
    exact ⟨rfl, hpruned, rfl⟩

end Accounted

/-! ## `SimpleCompactor` -/

namespace SimpleCompactor

theorem compact_accounted (U : Unicode) (messages : List CompactMessage)
    (config : CompactorConfig) : Accounted messages (compact U messages config) := by
  obtain ⟨is, hsel⟩ := compact_selection U messages config
  have hle := totalTokens_le_of_selects hsel.selects
  have hpath := compact_path U messages config
  generalize compact U messages config = r at hle hpath ⊢
  cases hpath with
  | identity _ => exact .uncompressed
  | window _ _ =>
    refine .counted hle fun hflag => ?_
    -- nothing pruned: the window has the length of the input, hence is the input
    have hsub := windowedMessages_sublist messages config
    have hzero : prunedByWindow messages config = 0 := by simpa using hflag
    exact ⟨hsub.eq_of_length_le (Nat.sub_eq_zero_iff_le.mp hzero), hzero⟩
  | stopWords _ _ _ => exact .counted hle (by simp)
  | pruned _ _ _ => exact .counted hle (by simp)
  | lastOnly _ _ _ _ _ _ => exact .counted hle (by simp)

end SimpleCompactor

/-! ## `SemanticGuardedCompactor` -/

namespace SemanticGuardedCompactor

variable {A : F64.Rounding} {U : Unicode} {messages : List CompactMessage}
  {config : CompactorConfig}

theorem compact_accounted (A : F64.Rounding) (U : Unicode) (messages : List CompactMessage)
    (config : CompactorConfig) : Accounted messages (compact A U messages config) := by
  have hle := totalTokens_le_of_sublist (compact_sublist A U messages config)
  revert hle
  unfold compact
  dsimp only
  split_ifs
  · exact fun _ => .uncompressed
  · exact fun hle => .counted hle (by simp)
  · exact fun hle => .counted hle (by simp)

/-- At every removal the running counter covers the message removed. -/
theorem removal_prefix_le {pre post : List ScoredMessage} {sm : ScoredMessage}
    (h : removal A U messages config = pre ++ sm :: post) :
    (pre.map (·.tokenCount)).sum + sm.tokenCount ≤ totalTokens messages := by
  have hsum := totalTokens_add_removed A U messages config
  rw [h] at hsum
  simp only [List.map_append, List.sum_append, List.map_cons, List.sum_cons] at hsum
  omega

end SemanticGuardedCompactor

/-- **Accounting.** Both compactors account for what they return, and none of
    their subtractions underflows: the window is no longer than the input, what
    is returned is no longer than the input, and at every removal the running
    counter (the input less what was removed before) covers the message. -/
theorem compact_accounts (A : F64.Rounding) (U : Unicode) (messages : List CompactMessage)
    (config : CompactorConfig) :
    (Accounted messages (SimpleCompactor.compact U messages config) ∧
      (SimpleCompactor.windowedMessages messages config).length ≤ messages.length) ∧
    Accounted messages (SemanticGuardedCompactor.compact A U messages config) ∧
      (SemanticGuardedCompactor.compact A U messages config).messages.length ≤ messages.length ∧
      ∀ pre sm post,
        SemanticGuardedCompactor.removal A U messages config = pre ++ sm :: post →
        (pre.map (·.tokenCount)).sum + sm.tokenCount ≤ totalTokens messages :=
  ⟨⟨SimpleCompactor.compact_accounted U messages config,
      (SimpleCompactor.windowedMessages_sublist messages config).length_le⟩,
    SemanticGuardedCompactor.compact_accounted A U messages config,
    (SemanticGuardedCompactor.compact_sublist A U messages config).length_le,
    fun _ _ _ => SemanticGuardedCompactor.removal_prefix_le⟩

end Melis.Compactor
