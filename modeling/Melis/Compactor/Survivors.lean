import Melis.Compactor.Threshold

/-!
# Which messages survive `SimpleCompactor`

Where `compact` gets to its step 4, it returns the window without its oldest trimmable
messages. Here the messages returned are followed back to the messages of the window,
one by one.

* `exists_of_removeOldest`, `removeOldest_append`: a trimmable message survives exactly
  as many removals as there are trimmable messages before it.
* `exists_of_withoutStopWords`, `withoutStopWords_append`: stop words leave every message
  where it is.
* `exists_of_returned`, `exists_returned_of_kept`: the trimmable messages returned are
  those that are `Kept`, without their stop words; the others are returned as they are.
  `not_kept_of_lastAlone`: where the last message comes back alone, none is.
-/

namespace Melis.Compactor.SimpleCompactor

open Lib

/-- How many of the messages `pre`, which `post` follow, are trimmable. -/
def trimmableBefore : List CompactMessage → List CompactMessage → ℕ
  | [], _ => 0
  | m :: pre, post => (if Trimmable m (pre ++ post) then 1 else 0) + trimmableBefore pre post

/-- The trimmable message `m` of the window `pre ++ m :: post` is not removed: three
    quarters of the tokens are reached without removing more than the trimmable messages
    before it. -/
def Kept (U : Unicode) (messages : List CompactMessage) (config : CompactorConfig)
    (pre : List CompactMessage) (m : CompactMessage) (post : List CompactMessage) : Prop :=
  totalTokens (removeOldest (trimmableBefore pre (m :: post)) (prepared U messages config)) ≤
    3 * totalTokens messages / 4

/-! ## Removal -/

section Removal

variable {m : CompactMessage} {ms pre post : List CompactMessage} {k : ℕ}

theorem trimmableCount_append (pre post : List CompactMessage) :
    trimmableCount (pre ++ post) = trimmableBefore pre post + trimmableCount post := by
  induction pre with
  | nil => rw [List.nil_append, trimmableBefore, Nat.zero_add]
  | cons x pre ih => rw [List.cons_append, trimmableCount, trimmableBefore, ih, Nat.add_assoc]

/-- A trimmable message is not counted among those before it. -/
theorem trimmableBefore_lt (pre : List CompactMessage) (hm : Trimmable m post) :
    trimmableBefore pre (m :: post) < trimmableCount (pre ++ m :: post) := by
  rw [trimmableCount_append, trimmableCount, if_pos hm]
  omega

/-- Only the roles matter. -/
theorem trimmableBefore_congr {pre' post' : List CompactMessage}
    (hpre : pre'.map (·.role) = pre.map (·.role))
    (hpost : post'.map (·.role) = post.map (·.role)) :
    trimmableBefore pre' post' = trimmableBefore pre post := by
  induction pre generalizing pre' with
  | nil => rw [List.map_eq_nil_iff.mp hpre, trimmableBefore, trimmableBefore]
  | cons x pre ih =>
    obtain ⟨x', pre', rfl, hrole, hroles⟩ := List.map_eq_cons_iff.mp hpre
    have hrest : (pre' ++ post').map (·.role) = (pre ++ post).map (·.role) := by
      rw [List.map_append, List.map_append, hroles, hpost]
    rw [trimmableBefore, trimmableBefore, ih hroles]
    simp only [trimmable_congr hrole hrest]

/-- Removing no more than the trimmable messages of `pre` leaves `post` alone. -/
theorem removeOldest_append (h : k ≤ trimmableBefore pre post) :
    ∃ pre', removeOldest k (pre ++ post) = pre' ++ post := by
  induction pre generalizing k with
  | nil =>
    obtain rfl : k = 0 := Nat.le_zero.mp h
    exact ⟨[], removeOldest_zero post⟩
  | cons x pre ih =>
    cases k with
    | zero => exact ⟨x :: pre, removeOldest_zero _⟩
    | succ k =>
      rw [trimmableBefore] at h
      rw [List.cons_append, removeOldest]
      split_ifs at h ⊢ with htrim
      · exact ih (by omega)
      · obtain ⟨pre', he⟩ := ih (k := k + 1) (by omega)
        exact ⟨x :: pre', by rw [he, List.cons_append]⟩

/-- A message that survives `k` removals is trimmable before them exactly if it is after
    them, and then at least `k` trimmable messages stand before it. -/
theorem exists_of_removeOldest {pre' post' : List CompactMessage}
    (h : removeOldest k ms = pre' ++ m :: post') :
    ∃ pre post, ms = pre ++ m :: post ∧ (Trimmable m post' ↔ Trimmable m post) ∧
      (Trimmable m post → k ≤ trimmableBefore pre (m :: post)) := by
  induction ms generalizing k pre' with
  | nil => cases k <;> simp [removeOldest] at h
  | cons x ms ih =>
    cases k with
    | zero =>
      rw [removeOldest_zero] at h
      exact ⟨pre', post', h, Iff.rfl, fun _ => Nat.zero_le _⟩
    | succ k =>
      rw [removeOldest] at h
      split_ifs at h with htrim
      · obtain ⟨pre, post, rfl, hiff, hle⟩ := ih h
        refine ⟨x :: pre, post, rfl, hiff, fun hm => ?_⟩
        rw [trimmableBefore, if_pos htrim]
        have := hle hm
        omega
      · cases pre' with
        | nil =>
          obtain ⟨rfl, rfl⟩ := List.cons.inj h
          exact ⟨[], ms, rfl, trimmable_removeOldest_iff x (k + 1) ms,
            fun hm => absurd hm htrim⟩
        | cons y pre' =>
          obtain ⟨rfl, htail⟩ := List.cons.inj h
          obtain ⟨pre, post, rfl, hiff, hle⟩ := ih htail
          refine ⟨x :: pre, post, rfl, hiff, fun hm => ?_⟩
          rw [trimmableBefore, if_neg htrim, Nat.zero_add]
          exact hle hm

end Removal

/-! ## Stop words -/

section StopWords

variable {U : Unicode} {stopWords : List String} {c m : CompactMessage}
  {ms pre post : List CompactMessage}

/-- Removing stop words keeps the role. -/
theorem role_ite_stripped (U : Unicode) (stopWords : List String) (m : CompactMessage) (p : Prop)
    [Decidable p] : (if p then stripped U stopWords m else m).role = m.role := by
  split_ifs <;> rfl

theorem map_role_withoutStopWords (U : Unicode) (stopWords : List String)
    (ms : List CompactMessage) :
    (withoutStopWords U stopWords ms).map (·.role) = ms.map (·.role) := by
  induction ms with
  | nil => rfl
  | cons m ms ih =>
    rw [withoutStopWords, List.map_cons, List.map_cons, ih, role_ite_stripped]

theorem withoutStopWords_append (U : Unicode) (stopWords : List String)
    (pre post : List CompactMessage) :
    ∃ pre', pre'.map (·.role) = pre.map (·.role) ∧
      withoutStopWords U stopWords (pre ++ post) =
        pre' ++ withoutStopWords U stopWords post := by
  induction pre with
  | nil => exact ⟨[], rfl, rfl⟩
  | cons x pre ih =>
    obtain ⟨pre', hroles, he⟩ := ih
    refine ⟨_ :: pre', ?_, by rw [List.cons_append, withoutStopWords, he, List.cons_append]⟩
    rw [List.map_cons, List.map_cons, role_ite_stripped, hroles]

/-- Every message without stop words comes from the message at its place. -/
theorem exists_of_withoutStopWords {pre' post' : List CompactMessage}
    (h : withoutStopWords U stopWords ms = pre' ++ c :: post') :
    ∃ pre m post, ms = pre ++ m :: post ∧ pre'.map (·.role) = pre.map (·.role) ∧
      post' = withoutStopWords U stopWords post ∧
      c = if Trimmable m post then stripped U stopWords m else m := by
  induction pre' generalizing ms with
  | nil =>
    cases ms with
    | nil => cases h
    | cons m ms =>
      obtain ⟨hc, hpost⟩ := List.cons.inj h
      exact ⟨[], m, ms, rfl, rfl, hpost.symm, hc.symm⟩
  | cons x pre' ih =>
    cases ms with
    | nil => cases h
    | cons y ms =>
      obtain ⟨hx, htail⟩ := List.cons.inj h
      obtain ⟨pre, m, post, rfl, hroles, hpost, hc⟩ := ih htail
      refine ⟨y :: pre, m, post, rfl, ?_, hpost, hc⟩
      rw [List.map_cons, List.map_cons, hroles, ← hx, role_ite_stripped]

/-- What is trimmable is so without stop words. -/
theorem trimmable_withoutStopWords_iff (hrole : c.role = m.role) :
    Trimmable c (withoutStopWords U stopWords post) ↔ Trimmable m post :=
  trimmable_congr hrole (map_role_withoutStopWords U stopWords post)

end StopWords

/-! ## What `compact` returns -/

section Compact

variable {U : Unicode} {messages : List CompactMessage} {config : CompactorConfig}
  {c m : CompactMessage} {pre post pre' post' : List CompactMessage}

/-- Past step 4, unless the window is empty or the last message comes back alone, so many
    of the oldest trimmable messages are removed that exactly those that are kept remain. -/
theorem exists_compact_messages_eq (hreach : ReachesPruning messages config)
    (hne : prepared U messages config ≠ []) (halone : ¬ LastAlone U messages config) :
    ∃ k, (compact U messages config).messages = removeOldest k (prepared U messages config) ∧
      ∀ j < trimmableCount (prepared U messages config),
        (k ≤ j ↔ totalTokens (removeOldest j (prepared U messages config)) ≤
          3 * totalTokens messages / 4) := by
  have hantitone := totalTokens_removeOldest_antitone (prepared U messages config)
  obtain ⟨hwithin, hpruned⟩ := compact_pruning U messages config hreach
  rcases Nat.lt_or_ge (3 * totalTokens messages / 4)
    (totalTokens (prepared U messages config)) with hover | hle
  · obtain ⟨k, hfirst, hkept, hnone⟩ := hpruned hover
    have hleft : removeOldest k (prepared U messages config) ≠ [] := by
      intro hempty
      obtain ⟨k', hfirst', hremaining⟩ := exists_remaining_eq U messages config
      obtain rfl := hfirst.unique hfirst'
      exact halone ⟨hreach, hover, hremaining.trans hempty, hnone hempty⟩
    refine ⟨k, hkept hleft, fun j hj => hfirst.le_iff hantitone ?_ hj⟩
    rwa [removeOldest_zero]
  · refine ⟨0, ?_, fun j _ => iff_of_true (Nat.zero_le j) ?_⟩
    · rw [hwithin hle, if_neg hne, removeOldest_zero]
    · have hj := hantitone (Nat.zero_le j)
      dsimp only at hj
      rw [removeOldest_zero] at hj
      exact hj.trans hle

theorem prepared_ne_nil (hne : lastMessages config.maxHistoryMessages messages ≠ []) :
    prepared U messages config ≠ [] := by
  rw [← List.length_pos_iff, prepared, length_withoutStopWords]
  exact List.length_pos_iff.mpr hne

/-- A message returned comes from one of the window. If that is trimmable, it is kept and
    its stop words are removed; otherwise it is returned as it is. -/
theorem exists_of_returned (hreach : ReachesPruning messages config)
    (hne : lastMessages config.maxHistoryMessages messages ≠ [])
    (halone : ¬ LastAlone U messages config)
    (h : (compact U messages config).messages = pre' ++ c :: post') :
    ∃ pre m post, lastMessages config.maxHistoryMessages messages = pre ++ m :: post ∧
      (Trimmable c post' ↔ Trimmable m post) ∧
      (Trimmable m post → Kept U messages config pre m post) ∧
      c = if Trimmable m post then stripped U config.stopWords m else m := by
  obtain ⟨k, hresult, hkept⟩ := exists_compact_messages_eq hreach (prepared_ne_nil hne) halone
  obtain ⟨pre₁, post₁, hsplit, hiff, hle⟩ := exists_of_removeOldest (hresult.symm.trans h)
  obtain ⟨pre, m, post, hwindow, hpre, hpost, hc⟩ := exists_of_withoutStopWords hsplit
  have hrole : c.role = m.role := by rw [hc, role_ite_stripped]
  have htrim : Trimmable c post₁ ↔ Trimmable m post := by
    rw [hpost, trimmable_withoutStopWords_iff hrole]
  have hbefore : trimmableBefore pre₁ (c :: post₁) = trimmableBefore pre (m :: post) := by
    refine trimmableBefore_congr hpre ?_
    rw [List.map_cons, List.map_cons, hrole, hpost, map_role_withoutStopWords]
  refine ⟨pre, m, post, hwindow, hiff.trans htrim, fun hm => ?_, hc⟩
  have hm₁ : Trimmable c post₁ := htrim.mpr hm
  have hlt := trimmableBefore_lt pre₁ hm₁
  rw [← hsplit] at hlt
  rw [Kept, ← hbefore]
  exact (hkept _ hlt).mp (hle hm₁)

/-- A trimmable message of the window, without its stop words, in what the pruning loop
    starts from. -/
theorem exists_prepared_eq (U : Unicode)
    (hwindow : lastMessages config.maxHistoryMessages messages = pre ++ m :: post)
    (hm : Trimmable m post) :
    ∃ pre₁ post₁, prepared U messages config =
        pre₁ ++ stripped U config.stopWords m :: post₁ ∧
      Trimmable (stripped U config.stopWords m) post₁ ∧
      trimmableBefore pre₁ (stripped U config.stopWords m :: post₁) =
        trimmableBefore pre (m :: post) := by
  obtain ⟨pre₁, hpre, hsplit⟩ := withoutStopWords_append U config.stopWords pre (m :: post)
  rw [withoutStopWords, if_pos hm] at hsplit
  refine ⟨pre₁, _, by rw [prepared, hwindow, hsplit],
    (trimmable_withoutStopWords_iff rfl).mpr hm, trimmableBefore_congr hpre ?_⟩
  rw [List.map_cons, List.map_cons, map_role_withoutStopWords, stripped]

/-- A trimmable message of the window that is kept is returned without its stop words. -/
theorem exists_returned_of_kept (hreach : ReachesPruning messages config)
    (halone : ¬ LastAlone U messages config)
    (hwindow : lastMessages config.maxHistoryMessages messages = pre ++ m :: post)
    (hm : Trimmable m post) (hkept : Kept U messages config pre m post) :
    ∃ pre' post', (compact U messages config).messages =
        pre' ++ stripped U config.stopWords m :: post' ∧
      Trimmable (stripped U config.stopWords m) post' := by
  obtain ⟨pre₁, post₁, hprepared, htrim, hbefore⟩ := exists_prepared_eq U hwindow hm
  have hne : prepared U messages config ≠ [] := by
    rw [hprepared]
    exact List.append_ne_nil_of_right_ne_nil _ (List.cons_ne_nil _ _)
  obtain ⟨k, hresult, hcount⟩ := exists_compact_messages_eq hreach hne halone
  have hlt := trimmableBefore_lt pre₁ htrim
  rw [← hprepared] at hlt
  rw [Kept, ← hbefore] at hkept
  obtain ⟨pre', he⟩ := removeOldest_append ((hcount _ hlt).mpr hkept)
  exact ⟨pre', post₁, by rw [hresult, hprepared, he], htrim⟩

/-- Where the last message comes back alone, no trimmable message is kept. -/
theorem not_kept_of_lastAlone (halone : LastAlone U messages config)
    (hwindow : lastMessages config.maxHistoryMessages messages = pre ++ m :: post)
    (hm : Trimmable m post) : ¬ Kept U messages config pre m post := by
  obtain ⟨-, hover, hempty, -⟩ := halone
  obtain ⟨pre₁, post₁, hprepared, htrim, hbefore⟩ := exists_prepared_eq U hwindow hm
  obtain ⟨k, hfirst, hremaining⟩ := exists_remaining_eq U messages config
  have hlt := trimmableBefore_lt pre₁ htrim
  rw [← hprepared] at hlt
  rw [Kept, ← hbefore, ← hfirst.le_iff (totalTokens_removeOldest_antitone _)
    (by rwa [removeOldest_zero]) hlt]
  intro hle
  obtain ⟨pre', he⟩ := removeOldest_append hle
  rw [hprepared, he, hempty] at hremaining
  exact absurd hremaining.symm (by simp)

end Compact

end Melis.Compactor.SimpleCompactor
