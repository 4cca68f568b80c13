import Melis.Compactor.Survivors

/-!
# How many messages `SimpleCompactor` says it pruned

`messages_pruned` is documented as the number of messages removed entirely. `compact`
adds up what the window drops and what the pruning loop removes. Where the loop removes
everything, the last message is put back, and stays counted as removed.

* `length_removeOldest`, `trimmableCount_eq_length_iff`: the removals, as a count.
* `remaining_eq_nil_iff`: when the loop removes everything.
* `countsPruned_iff`: the count is right exactly when it does not.
* `not_forall_countsPruned`: it is not right for every history.
-/

namespace Melis.Compactor.SimpleCompactor

open Lib

variable {U : Unicode} {messages : List CompactMessage} {config : CompactorConfig}

/-- The messages counted as pruned and the messages returned are the messages given. -/
def CountsPruned (U : Unicode) (messages : List CompactMessage) (config : CompactorConfig) :
    Prop :=
  (compact U messages config).messagesPruned + (compact U messages config).messages.length =
    messages.length

/-- The window is not below the threshold, it has neither system nor user messages, and
    its last message alone is over three quarters of the tokens, even without its stop
    words. -/
def LastTooLong (U : Unicode) (messages : List CompactMessage) (config : CompactorConfig) :
    Prop :=
  let window := lastMessages config.maxHistoryMessages messages
  config.tokenThreshold ≤ totalTokens window ∧
    (∀ m ∈ window, m.role ≠ "system" ∧ m.role ≠ "user") ∧
    ∃ last, window.getLast? = some last ∧
      3 * totalTokens messages / 4 < messageTokens (stripped U config.stopWords last)

/-! ## The removals as a count -/

section Removal

variable {ms : List CompactMessage} {k : ℕ}

theorem trimmableCount_le_length (ms : List CompactMessage) : trimmableCount ms ≤ ms.length := by
  induction ms with
  | nil => exact le_rfl
  | cons m ms ih =>
    rw [trimmableCount, List.length_cons]
    split_ifs <;> omega

/-- Each removal removes one message. -/
theorem length_removeOldest (h : k ≤ trimmableCount ms) :
    k + (removeOldest k ms).length = ms.length := by
  induction ms generalizing k with
  | nil =>
    obtain rfl : k = 0 := Nat.le_zero.mp h
    rfl
  | cons m ms ih =>
    cases k with
    | zero => rw [removeOldest_zero, Nat.zero_add]
    | succ k =>
      rw [trimmableCount] at h
      rw [removeOldest]
      split_ifs at h ⊢
      · have := ih (k := k) (by omega)
        rw [List.length_cons]
        omega
      · have := ih (k := k + 1) (by omega)
        rw [List.length_cons, List.length_cons]
        omega

/-- All messages are trimmable if there are neither system nor user messages. -/
theorem trimmableCount_eq_length_iff :
    trimmableCount ms = ms.length ↔ ∀ m ∈ ms, m.role ≠ "system" ∧ m.role ≠ "user" := by
  induction ms with
  | nil => exact iff_of_true rfl fun m hm => absurd hm List.not_mem_nil
  | cons m ms ih =>
    have hle := trimmableCount_le_length ms
    rw [trimmableCount, List.length_cons, List.forall_mem_cons, ← ih]
    constructor
    · intro h
      split_ifs at h with htrim
      · have hrest : trimmableCount ms = ms.length := by omega
        -- the messages after `m` are not user messages, so `m` would be the last one
        exact ⟨⟨htrim.1, fun huser => htrim.2 ⟨huser, fun x hx => (ih.mp hrest x hx).2⟩⟩, hrest⟩
      · omega
    · rintro ⟨⟨hsystem, huser⟩, hrest⟩
      rw [if_pos ⟨hsystem, fun h => huser h.1⟩, hrest, Nat.add_comm]

/-- All but the last message removed. -/
theorem removeOldest_length (init : List CompactMessage) (last : CompactMessage)
    (hall : trimmableCount (init ++ [last]) = (init ++ [last]).length) :
    removeOldest init.length (init ++ [last]) = [last] := by
  have hcount := trimmableCount_append init [last]
  have hlast := trimmableCount_le_length [last]
  rw [hall, List.length_append] at hcount
  rw [List.length_singleton] at hlast hcount
  have hbefore : init.length ≤ trimmableBefore init [last] := by omega
  have hcovered : init.length ≤ trimmableCount (init ++ [last]) := by
    rw [hall, List.length_append]
    exact Nat.le_add_right _ _
  obtain ⟨pre', he⟩ := removeOldest_append hbefore
  have hlength := length_removeOldest hcovered
  rw [he, List.length_append, List.length_append, List.length_singleton] at hlength
  obtain rfl : pre' = [] := List.length_eq_zero_iff.mp (by omega)
  exact he

end Removal

/-! ## What is counted -/

/-- What the loop removes and what it leaves. -/
theorem length_removed_add_remaining (U : Unicode) (messages : List CompactMessage)
    (config : CompactorConfig) :
    (removed U messages config).length + (remaining U messages config).length =
      (windowedMessages messages config).length := by
  obtain ⟨k, hfirst, hremoved⟩ := exists_removed_eq U messages config
  have hlength : (removed U messages config).length = k := by
    rw [hremoved, List.length_take, length_trimmableIndices, Nat.min_eq_left hfirst.le]
  rw [hlength, remaining, hremoved, working_eq, withoutIndices_eq, length_removeOldest hfirst.le,
    prepared, length_withoutStopWords, windowedMessages_eq]

/-- Over three quarters, the loop removes everything exactly if everything is trimmable
    and the last message alone is over three quarters too. -/
theorem remaining_eq_nil_iff
    (hover : 3 * totalTokens messages / 4 < totalTokens (prepared U messages config)) :
    remaining U messages config = [] ↔
      trimmableCount (prepared U messages config) = (prepared U messages config).length ∧
        ∃ last, (prepared U messages config).getLast? = some last ∧
          3 * totalTokens messages / 4 < messageTokens last := by
  obtain ⟨k, hfirst, hremaining⟩ := exists_remaining_eq U messages config
  have hlength := length_removeOldest hfirst.le
  have hle := hfirst.le
  have hcount := trimmableCount_le_length (prepared U messages config)
  rw [hremaining, ← List.length_eq_zero_iff]
  rcases List.eq_nil_or_concat' (prepared U messages config) with hnil | ⟨init, last, hsplit⟩
  · rw [hnil] at hover
    exact absurd hover (Nat.not_lt_zero _)
  have hlast : (prepared U messages config).getLast? = some last := by rw [hsplit]; simp
  have hsize : (prepared U messages config).length = init.length + 1 := by rw [hsplit]; simp
  -- with everything trimmable, the last removal decides
  have hdecides (hall : trimmableCount (prepared U messages config) =
      (prepared U messages config).length) :
      k ≤ init.length ↔ messageTokens last ≤ 3 * totalTokens messages / 4 := by
    have hone : removeOldest init.length (prepared U messages config) = [last] := by
      rw [hsplit] at hall ⊢
      exact removeOldest_length init last hall
    rw [hfirst.le_iff (totalTokens_removeOldest_antitone _) (by rwa [removeOldest_zero])
      (by omega), hone, totalTokens_singleton]
  constructor
  · intro hzero
    have hall : trimmableCount (prepared U messages config) =
        (prepared U messages config).length := by omega
    refine ⟨hall, last, hlast, Nat.lt_of_not_le fun hfits => ?_⟩
    have := (hdecides hall).mpr hfits
    omega
  · rintro ⟨hall, last', hlast', hlong⟩
    obtain rfl : last' = last := Option.some.inj (hlast'.symm.trans hlast)
    have : ¬ k ≤ init.length := fun h => Nat.not_le_of_lt hlong ((hdecides hall).mp h)
    omega

/-- The last message of the window, without its stop words. -/
theorem getLast?_prepared (U : Unicode)
    (hroles : ∀ m ∈ lastMessages config.maxHistoryMessages messages,
      m.role ≠ "system" ∧ m.role ≠ "user") :
    (prepared U messages config).getLast? =
      (lastMessages config.maxHistoryMessages messages).getLast?.map
        (stripped U config.stopWords) := by
  rcases List.eq_nil_or_concat' (lastMessages config.maxHistoryMessages messages) with
    hnil | ⟨init, last, hsplit⟩
  · rw [prepared, hnil]
    rfl
  · have hlast : last.role ≠ "system" ∧ last.role ≠ "user" :=
      hroles last (by rw [hsplit]; exact List.mem_append_right _ List.mem_cons_self)
    have htrim : Trimmable last [] := ⟨hlast.1, fun h => hlast.2 h.1⟩
    obtain ⟨init', -, he⟩ := withoutStopWords_append U config.stopWords init [last]
    rw [prepared, hsplit, he, withoutStopWords, if_pos htrim, withoutStopWords,
      List.getLast?_concat, List.getLast?_concat, Option.map_some]

/-- Neither the window nor what the loop starts from has system or user messages. -/
theorem trimmableCount_prepared_eq_length_iff :
    trimmableCount (prepared U messages config) = (prepared U messages config).length ↔
      ∀ m ∈ lastMessages config.maxHistoryMessages messages,
        m.role ≠ "system" ∧ m.role ≠ "user" := by
  have hroles (ms : List CompactMessage) : (∀ m ∈ ms, m.role ≠ "system" ∧ m.role ≠ "user") ↔
      ∀ role ∈ ms.map (·.role), role ≠ "system" ∧ role ≠ "user" := by
    rw [List.forall_mem_map]
  rw [trimmableCount_eq_length_iff, hroles, prepared, map_role_withoutStopWords, ← hroles]

/-- When the last message is put back. -/
theorem lastTooLong_iff :
    LastTooLong U messages config ↔
      config.tokenThreshold ≤ totalTokens (windowedMessages messages config) ∧
        3 * totalTokens messages / 4 < totalTokens (prepared U messages config) ∧
        remaining U messages config = [] := by
  rw [LastTooLong, windowedMessages_eq]
  refine and_congr_right fun _ => ?_
  constructor
  · rintro ⟨hroles, last, hlast, hlong⟩
    have hlast' : (prepared U messages config).getLast? =
        some (stripped U config.stopWords last) := by
      rw [getLast?_prepared U hroles, hlast, Option.map_some]
    have hmem := totalTokens_le_of_sublist
      (List.singleton_sublist.mpr (List.mem_of_getLast? hlast'))
    rw [totalTokens_singleton] at hmem
    have hover := Nat.lt_of_lt_of_le hlong hmem
    exact ⟨hover, (remaining_eq_nil_iff hover).mpr
      ⟨trimmableCount_prepared_eq_length_iff.mpr hroles, _, hlast', hlong⟩⟩
  · rintro ⟨hover, hempty⟩
    obtain ⟨hall, last', hlast', hlong⟩ := (remaining_eq_nil_iff hover).mp hempty
    have hroles := trimmableCount_prepared_eq_length_iff.mp hall
    rw [getLast?_prepared U hroles] at hlast'
    obtain ⟨last, hlast, rfl⟩ := Option.map_eq_some_iff.mp hlast'
    exact ⟨hroles, last, hlast, hlong⟩

/-- **The count is right exactly when** the last message is not put back. -/
theorem countsPruned_iff (U : Unicode) (messages : List CompactMessage)
    (config : CompactorConfig) :
    CountsPruned U messages config ↔ ¬ LastTooLong U messages config := by
  have hwindow : prunedByWindow messages config +
      (windowedMessages messages config).length = messages.length :=
    Nat.sub_add_cancel (windowedMessages_sublist messages config).length_le
  have htokens := totalTokens_windowedMessages_le messages config
  have hremoved := length_removed_add_remaining U messages config
  rw [CountsPruned, lastTooLong_iff]
  have hpath := compact_path U messages config
  generalize compact U messages config = r at hpath ⊢
  cases hpath with
  | identity hid =>
    refine iff_of_true (Nat.zero_add _) ?_
    rintro ⟨hthreshold, hover, -⟩
    rcases hid with hskip | hnil
    · omega
    · rw [prepared_of_window_nil hnil] at hover
      exact absurd hover (Nat.not_lt_zero _)
  | window _ hlt => exact iff_of_true hwindow fun h => Nat.not_le_of_lt hlt h.1
  | stopWords _ _ hle =>
    rw [working_eq, targetTokens_eq_div] at hle
    refine iff_of_true ?_ fun h => Nat.not_le_of_lt h.2.1 hle
    change prunedByWindow messages config + (working U messages config).length = _
    rw [working, length_workingMessages, hwindow]
  | pruned hne _ _ =>
    refine iff_of_true ?_ fun h => hne h.2.2
    change prunedByWindow messages config + (removed U messages config).length +
      (remaining U messages config).length = _
    rw [Nat.add_assoc, hremoved, hwindow]
  | lastOnly last _ _ hempty hover hlt =>
    rw [working_eq, targetTokens_eq_div] at hlt
    refine iff_of_false ?_ (not_not.mpr ⟨hover, hlt, hempty⟩)
    rw [hempty, List.length_nil] at hremoved
    change prunedByWindow messages config + (removed U messages config).length + 1 ≠ _
    omega

/-! ## A single answer -/

/-- A history of one answer: it is counted as pruned, and returned. -/
theorem not_forall_countsPruned :
    ¬ ∀ (U : Unicode) (messages : List CompactMessage) (config : CompactorConfig),
      CountsPruned U messages config := by
  intro h
  have hone := h Unicode.ascii [{ role := "assistant", content := "Hello!" }]
    { CompactorConfig.default with tokenThreshold := 1 }
  revert hone
  rw [CountsPruned]
  decide +kernel

end Melis.Compactor.SimpleCompactor
