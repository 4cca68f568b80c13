import Melis.Compactor.Pruning

/-!
# What `SimpleCompactor` aims at

The pruning loop stops at three quarters of the tokens that came in, not at the
threshold that made it start.

* `trimmableCount_removeOldest`, `totalTokens_removeOldest_antitone`: what each removal
  leaves.
* `compact_bound`: how far the tokens come down, and when they come below the
  threshold.
* `above_threshold`: a history that stays above it.
-/

namespace Melis.Compactor.SimpleCompactor

open Lib

/-! ## Removal by removal -/

section Removal

variable {ms : List CompactMessage}

theorem removeOldest_zero (ms : List CompactMessage) : removeOldest 0 ms = ms := by
  cases ms <;> rfl

theorem removeOldest_succ_sublist (k : ℕ) (ms : List CompactMessage) :
    (removeOldest (k + 1) ms).Sublist (removeOldest k ms) := by
  induction ms generalizing k with
  | nil => cases k <;> exact List.Sublist.refl []
  | cons m ms ih =>
    rw [removeOldest]
    cases k with
    | zero =>
      rw [removeOldest_zero]
      split_ifs
      · rw [removeOldest_zero]
        exact List.sublist_cons_self m ms
      · exact (removeOldest_zero ms ▸ ih 0).cons_cons m
    | succ k =>
      rw [removeOldest]
      split_ifs
      · exact ih k
      · exact (ih (k + 1)).cons_cons m

/-- The tokens do not rise. -/
theorem totalTokens_removeOldest_antitone (ms : List CompactMessage) :
    Antitone fun k => totalTokens (removeOldest k ms) :=
  antitone_nat_of_succ_le fun k => totalTokens_le_of_sublist (removeOldest_succ_sublist k ms)

/-- A user message remains, if there is one. -/
theorem exists_user_removeOldest (k : ℕ) (h : ∃ m ∈ ms, m.role = "user") :
    ∃ m ∈ removeOldest k ms, m.role = "user" := by
  induction ms generalizing k with
  | nil => simp at h
  | cons m ms ih =>
    cases k with
    | zero => exact (removeOldest_zero (m :: ms)).symm ▸ h
    | succ k =>
      obtain ⟨x, hx, huser⟩ := h
      rw [removeOldest]
      split_ifs with htrim
      · refine ih k ?_
        rcases List.mem_cons.mp hx with rfl | hx
        · -- a trimmable user message is not the last one
          have hlater := htrim.2
          rw [not_and] at hlater
          simpa using hlater huser
        · exact ⟨x, hx, huser⟩
      · rcases List.mem_cons.mp hx with rfl | hx
        · exact ⟨x, List.mem_cons_self, huser⟩
        · obtain ⟨y, hy, hyuser⟩ := ih (k + 1) ⟨x, hx, huser⟩
          exact ⟨y, List.mem_cons_of_mem _ hy, hyuser⟩

/-- What is trimmable stays so. -/
theorem trimmable_removeOldest_iff (m : CompactMessage) (k : ℕ) (ms : List CompactMessage) :
    Trimmable m (removeOldest k ms) ↔ Trimmable m ms := by
  have hsub : (removeOldest k ms).Sublist ms := by
    induction k with
    | zero => rw [removeOldest_zero]
    | succ k ih => exact (removeOldest_succ_sublist k ms).trans ih
  have huser : (∀ m' ∈ removeOldest k ms, m'.role ≠ "user") ↔ ∀ m' ∈ ms, m'.role ≠ "user" := by
    constructor
    · intro hnone
      by_contra! hsome
      obtain ⟨x, hx, hxuser⟩ := exists_user_removeOldest k hsome
      exact hnone x hx hxuser
    · exact fun hnone m' hm' => hnone m' (hsub.subset hm')
  rw [Trimmable, Trimmable, huser]

/-- Each removal removes one trimmable message. -/
theorem trimmableCount_removeOldest (k : ℕ) (ms : List CompactMessage) :
    trimmableCount (removeOldest k ms) = trimmableCount ms - k := by
  induction ms generalizing k with
  | nil => cases k <;> simp [removeOldest, trimmableCount]
  | cons m ms ih =>
    cases k with
    | zero => rw [removeOldest_zero, Nat.sub_zero]
    | succ k =>
      rw [removeOldest, trimmableCount]
      split_ifs with htrim
      · rw [ih k]
        omega
      · rw [trimmableCount, if_neg (mt (trimmable_removeOldest_iff m _ ms).mp htrim),
          ih (k + 1), Nat.zero_add, Nat.zero_add]

/-- Without trimmable messages there are only system messages and the last user
    message. -/
theorem trimmableCount_eq_zero_iff : trimmableCount ms = 0 ↔ Fixed ms := by
  rw [fixed_iff, eligibleIndices_eq, ← length_trimmableIndices 0, List.length_eq_zero_iff]

end Removal

/-! ## How far the tokens come down -/

section Compact

variable (U : Unicode) (messages : List CompactMessage) (config : CompactorConfig)

/-- Pruning leaves nothing, and the last message is returned alone (lines 295–298). -/
def LastAlone : Prop :=
  ReachesPruning messages config ∧
    3 * totalTokens messages / 4 < totalTokens (prepared U messages config) ∧
    remaining U messages config = [] ∧
    ∃ last, messages.getLast? = some last ∧ (compact U messages config).messages = [last]

/-- What the README says of `adaptive_trimming`: it goes on until under the threshold, or
    until there is nothing to remove. -/
def TrimsToThreshold : Prop :=
  (compact U messages config).finalTokens < config.tokenThreshold ∨
    Fixed (compact U messages config).messages ∨ LastAlone U messages config

/-- No removal but the last leaves the tokens within three quarters and not below the
    threshold. -/
def NoneBetween : Prop :=
  let S := prepared U messages config
  ∀ k < trimmableCount S,
    ¬ (config.tokenThreshold ≤ totalTokens (removeOldest k S) ∧
      totalTokens (removeOldest k S) ≤ 3 * totalTokens messages / 4)

variable {U messages config}

theorem noneBetween_of_lt
    (h : totalTokens (prepared U messages config) < config.tokenThreshold) :
    NoneBetween U messages config := by
  intro k _ ⟨hthreshold, _⟩
  have hle := totalTokens_removeOldest_antitone (prepared U messages config) (Nat.zero_le k)
  dsimp only at hle
  rw [removeOldest_zero] at hle
  omega

/-- Stop words are not counted any more. -/
theorem totalTokens_prepared_le (U : Unicode) (messages : List CompactMessage)
    (config : CompactorConfig) :
    totalTokens (prepared U messages config) ≤ totalTokens (windowedMessages messages config) := by
  rw [← working_eq]
  exact totalTokens_le_of_selects (workingMessages_selects U _ config)

theorem totalTokens_windowedMessages_le (messages : List CompactMessage)
    (config : CompactorConfig) :
    totalTokens (windowedMessages messages config) ≤ totalTokens messages :=
  totalTokens_le_of_sublist (windowedMessages_sublist messages config)

/-- An empty window leaves nothing. -/
theorem prepared_of_window_nil (hnil : windowedMessages messages config = []) :
    prepared U messages config = [] := by
  rw [← working_eq, working, workingMessages_eq_nil.mpr hnil]

/-- Within three quarters, the first removal decides. -/
theorem noneBetween_iff_of_le
    (h : totalTokens (prepared U messages config) ≤ 3 * totalTokens messages / 4) :
    NoneBetween U messages config ↔
      totalTokens (prepared U messages config) < config.tokenThreshold ∨
        Fixed (prepared U messages config) := by
  rw [← trimmableCount_eq_zero_iff]
  constructor
  · intro hnone
    rcases Nat.eq_zero_or_pos (trimmableCount (prepared U messages config)) with h0 | hpos
    · exact .inr h0
    · have hfirst := hnone 0 hpos
      rw [removeOldest_zero] at hfirst
      exact .inl (Nat.lt_of_not_le fun hle => hfirst ⟨hle, h⟩)
  · rintro (hlt | h0)
    · exact noneBetween_of_lt hlt
    · intro k hk
      exact absurd (h0 ▸ hk) (Nat.not_lt_zero k)

/-- Over three quarters, the pruning loop ends below the threshold or with nothing to
    remove. -/
theorem noneBetween_iff_remaining
    (h : 3 * totalTokens messages / 4 < totalTokens (prepared U messages config)) :
    NoneBetween U messages config ↔
      totalTokens (remaining U messages config) < config.tokenThreshold ∨
        Fixed (remaining U messages config) := by
  obtain ⟨k, hfirst, hremaining⟩ := exists_remaining_eq U messages config
  have hlast : k = trimmableCount (prepared U messages config) ↔
      Fixed (remaining U messages config) := by
    rw [← trimmableCount_eq_zero_iff, hremaining, trimmableCount_removeOldest]
    have := hfirst.le
    omega
  rw [← hlast, hremaining, NoneBetween]
  exact (hfirst.below_iff (totalTokens_removeOldest_antitone _)
    (by rwa [removeOldest_zero])).symm

/-- The pruning loop reaches three quarters, or leaves nothing to remove. -/
theorem remaining_le_or_fixed (U : Unicode) (messages : List CompactMessage)
    (config : CompactorConfig) :
    totalTokens (remaining U messages config) ≤ 3 * totalTokens messages / 4 ∨
      Fixed (remaining U messages config) := by
  obtain ⟨k, hfirst, hremaining⟩ := exists_remaining_eq U messages config
  rw [hremaining, ← trimmableCount_eq_zero_iff, trimmableCount_removeOldest]
  exact hfirst.complete.imp_right fun hk => by omega

/-- The other paths do not return the last message alone. -/
theorem not_lastAlone (h : ¬ ReachesPruning messages config ∨
    totalTokens (prepared U messages config) ≤ 3 * totalTokens messages / 4 ∨
      remaining U messages config ≠ []) : ¬ LastAlone U messages config := by
  rintro ⟨hreach, hover, hempty, -⟩
  rcases h with hnot | hle | hne
  · exact hnot hreach
  · exact absurd hle (Nat.not_le_of_lt hover)
  · exact hne hempty

/-- **The bound.** `compact` brings the tokens below the threshold or within three
    quarters of what they were, or leaves nothing to remove; or it returns the last message
    alone, or the input where the window is empty. The README is met exactly if no removal
    but the last leaves the tokens between the threshold and three quarters, and an empty
    window comes from an input that meets it. -/
theorem compact_bound (U : Unicode) (messages : List CompactMessage)
    (config : CompactorConfig) :
    let result := compact U messages config
    (TrimsToThreshold U messages config ∨
      result.finalTokens ≤ 3 * totalTokens messages / 4 ∨
      (windowedMessages messages config = [] ∧ result.messages = messages)) ∧
    (TrimsToThreshold U messages config ↔
      NoneBetween U messages config ∧
        (windowedMessages messages config = [] →
          totalTokens messages < config.tokenThreshold ∨ Fixed messages)) := by
  intro result
  have hprepared := totalTokens_prepared_le U messages config
  have hwindow := totalTokens_windowedMessages_le messages config
  have hresult : result = compact U messages config := rfl
  have hpath := compact_path U messages config
  rw [TrimsToThreshold, ← hresult]
  rw [← hresult] at hpath
  clear_value result
  cases hpath with
  | identity hid =>
    rcases hid with hskip | hnil
    · have hlt : totalTokens messages < config.tokenThreshold := hskip.1
      have hnone : NoneBetween U messages config := noneBetween_of_lt (by omega)
      exact ⟨.inl (.inl hlt), iff_of_true (.inl hlt) ⟨hnone, fun _ => .inl hlt⟩⟩
    · have hnothing := @prepared_of_window_nil U _ _ hnil
      have hnone : NoneBetween U messages config := by
        intro k hk
        rw [hnothing] at hk
        exact absurd hk (Nat.not_lt_zero k)
      have hother : ¬ LastAlone U messages config :=
        not_lastAlone (.inr (.inl (hnothing ▸ Nat.zero_le _)))
      rw [or_iff_left hother]
      exact ⟨.inr (.inr ⟨hnil, rfl⟩), fun h => ⟨hnone, fun _ => h⟩, fun h => h.2 hnil⟩
  | window hne hlt =>
    have hnone : NoneBetween U messages config := noneBetween_of_lt (by omega)
    exact ⟨.inl (.inl hlt), iff_of_true (.inl hlt) ⟨hnone, fun hnil => absurd hnil hne⟩⟩
  | stopWords hne hover hle =>
    rw [working_eq, targetTokens_eq_div] at hle
    have hother : ¬ LastAlone U messages config := not_lastAlone (.inr (.inl hle))
    rw [or_iff_left hother, noneBetween_iff_of_le hle, and_iff_left fun hnil => absurd hnil hne,
      working_eq]
    exact ⟨.inr (.inl hle), Iff.rfl⟩
  | pruned hrest hover hlt =>
    rw [working_eq, targetTokens_eq_div] at hlt
    have hother : ¬ LastAlone U messages config := not_lastAlone (.inr (.inr hrest))
    have hwindowed : windowedMessages messages config ≠ [] := by
      intro hnil
      rw [prepared_of_window_nil hnil] at hlt
      exact absurd hlt (Nat.not_lt_zero _)
    rw [or_iff_left hother, noneBetween_iff_remaining hlt,
      and_iff_left fun hnil => absurd hnil hwindowed]
    refine ⟨?_, Iff.rfl⟩
    rcases remaining_le_or_fixed U messages config with hle | hfixed
    · exact .inr (.inl hle)
    · exact .inl (.inr hfixed)
  | lastOnly last hlast hne hempty hover hlt =>
    rw [working_eq, targetTokens_eq_div] at hlt
    have halone : LastAlone U messages config := by
      refine ⟨⟨fun hskip => ?_, Nat.not_lt_of_le hover⟩, hlt, hempty, last, hlast, ?_⟩
      · omega
      · rw [← hresult]
        rfl
    have hnone : NoneBetween U messages config := by
      rw [noneBetween_iff_remaining hlt, hempty, ← trimmableCount_eq_zero_iff]
      exact .inr rfl
    exact ⟨.inl (.inr (.inr halone)), iff_of_true (.inr (.inr halone))
      ⟨hnone, fun hnil => absurd hnil hne⟩⟩

end Compact

/-! ## A history that stays above -/

/-- Three answers and a question: the first removal comes within three quarters of the 17
    tokens, and leaves 12 of them over a threshold of 4. -/
theorem above_threshold :
    let answer : CompactMessage := { role := "assistant", content := "Hello!" }
    let history := [answer, answer, answer, { role := "user", content := "How?" }]
    let config := { CompactorConfig.default with tokenThreshold := 4 }
    config.strategy = "adaptive_trimming" ∧ ¬ TrimsToThreshold Unicode.ascii history config := by
  intro answer history config
  refine ⟨rfl, ?_⟩
  rintro (hlt | hfixed | ⟨-, -, hempty, -⟩)
  · exact absurd hlt (by decide +kernel)
  · exact absurd (trimmableCount_eq_zero_iff.mpr hfixed) (by decide +kernel)
  · exact absurd hempty (by decide +kernel)

end Melis.Compactor.SimpleCompactor
