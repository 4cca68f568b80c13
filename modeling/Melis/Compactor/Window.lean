import Melis.Compactor.Simple

/-!
# The sliding window of `SimpleCompactor`

The window keeps the system messages and the last `max_history_messages` others.

* `windowedMessages_split`: if the window reaches a message, it splits around it
  as the input does; `mem_post_of_mem_windowedMessages`: if not, what it holds
  comes after.
* `windowedMessages_eq_nil_iff`: when the window is empty.
* `windowedMessages_length_lt`, `windowedMessages_eq_self`: when it drops
  messages.
* `compact_wasCompressed_iff`: when `compact` marks its result compressed.
-/

namespace Melis.Compactor.SimpleCompactor

open Lib

/-- How many messages of `messages` are not system messages. -/
def nonSystemCount (messages : List CompactMessage) : ℕ :=
  (messages.filter fun m => m.role != "system").length

/-! ## The window around one message -/

section Window

variable {pre post : List CompactMessage} {x : CompactMessage} {config : CompactorConfig}

theorem length_filter_zipIdx (messages : List CompactMessage) (n : ℕ) :
    ((messages.zipIdx n).filter fun e => e.1.role != "system").length =
      nonSystemCount messages := by
  unfold nonSystemCount
  conv_rhs => rw [← List.zipIdx_map_fst n messages, List.filter_map, List.length_map]
  rfl

theorem nonSystemMessages_split (hx : x.role ≠ "system") :
    nonSystemMessages (pre ++ x :: post) =
      ((pre.zipIdx.filter fun e => e.1.role != "system") ++ (x, pre.length) ::
        (post.zipIdx (pre.length + 1)).filter fun e => e.1.role != "system") := by
  simp [nonSystemMessages, List.zipIdx_append, List.filter_append, hx]

theorem nonSystemMessages_length (hx : x.role ≠ "system") :
    (nonSystemMessages (pre ++ x :: post)).length =
      nonSystemCount pre + (nonSystemCount post + 1) := by
  rw [nonSystemMessages_split hx, List.length_append, List.length_cons, length_filter_zipIdx,
    length_filter_zipIdx]

/-- The window reaches `x` if fewer than `max_history_messages` non-system
    messages follow it. -/
theorem mem_keptIndices_of_lt (pre : List CompactMessage) (hx : x.role ≠ "system")
    (h : nonSystemCount post < config.maxHistoryMessages) :
    pre.length ∈ keptIndices (pre ++ x :: post) config := by
  rw [keptIndices, nonSystemMessages_length hx, nonSystemMessages_split hx]
  rw [List.drop_append_of_le_length (by rw [length_filter_zipIdx]; omega)]
  simp

/-- Otherwise the window starts after `x`. -/
theorem lt_of_mem_keptIndices (hx : x.role ≠ "system")
    (h : config.maxHistoryMessages ≤ nonSystemCount post) {i : ℕ}
    (hi : i ∈ keptIndices (pre ++ x :: post) config) : pre.length < i := by
  rw [keptIndices, nonSystemMessages_length hx, nonSystemMessages_split hx] at hi
  obtain ⟨e, he, rfl⟩ := List.mem_map.mp hi
  rw [List.append_cons, List.drop_append, List.drop_eq_nil_of_le
    (by rw [List.length_append, length_filter_zipIdx, List.length_singleton]; omega),
    List.nil_append] at he
  exact List.le_snd_of_mem_zipIdx (List.mem_of_mem_filter (List.mem_of_mem_drop he))

/-- If the window reaches `x`, it splits around `x` as the input does. -/
theorem windowedMessages_split (pre : List CompactMessage) (hx : x.role ≠ "system")
    (h : nonSystemCount post < config.maxHistoryMessages) :
    ∃ pre' post', windowedMessages (pre ++ x :: post) config = pre' ++ x :: post' ∧
      post'.Sublist post := by
  unfold windowedMessages
  split_ifs
  · have hmem := mem_keptIndices_of_lt pre hx h
    simp only [List.zipIdx_append, List.zipIdx_cons, List.filter_append, List.map_append]
    rw [List.filter_cons_of_pos (by simpa using Or.inr hmem), List.map_cons]
    refine ⟨_, _, rfl, ?_⟩
    conv_rhs => rw [← List.zipIdx_map_fst (0 + pre.length + 1) post]
    exact List.filter_sublist.map _
  · exact ⟨pre, post, rfl, List.Sublist.refl post⟩

/-- If the window starts after `x`, whatever non-system message it has comes
    after `x`. -/
theorem mem_post_of_mem_windowedMessages (hx : x.role ≠ "system")
    (h : config.maxHistoryMessages ≤ nonSystemCount post) {m : CompactMessage}
    (hm : m ∈ windowedMessages (pre ++ x :: post) config) (hs : m.role ≠ "system") :
    m ∈ post := by
  unfold windowedMessages at hm
  rw [if_pos (by rw [nonSystemMessages_length hx]; omega)] at hm
  obtain ⟨⟨m', i⟩, he, rfl⟩ := List.mem_map.mp hm
  obtain ⟨hmem, hkeep⟩ := List.mem_filter.mp he
  have hi : i ∈ keptIndices (pre ++ x :: post) config := by simpa [hs] using hkeep
  have hlt := lt_of_mem_keptIndices hx h hi
  have hget := List.mem_zipIdx_iff_getElem?.mp hmem
  rw [List.append_cons, List.getElem?_append_right (by simp; omega)] at hget
  exact List.mem_of_getElem? hget

theorem exists_first_nonSystem {messages : List CompactMessage}
    (h : 0 < nonSystemCount messages) :
    ∃ pre y post, messages = pre ++ y :: post ∧ y.role ≠ "system" ∧ nonSystemCount pre = 0 := by
  induction messages with
  | nil => simp [nonSystemCount] at h
  | cons m ms ih =>
    by_cases hm : m.role = "system"
    · have hcount : nonSystemCount (m :: ms) = nonSystemCount ms := by simp [nonSystemCount, hm]
      obtain ⟨pre, y, post, rfl, hy, hpre⟩ := ih (hcount ▸ h)
      exact ⟨m :: pre, y, post, rfl, hy, by simpa [nonSystemCount, hm] using hpre⟩
    · exact ⟨[], m, ms, rfl, hm, rfl⟩

theorem exists_last_nonSystem {messages : List CompactMessage}
    (h : 0 < nonSystemCount messages) :
    ∃ pre y post, messages = pre ++ y :: post ∧ y.role ≠ "system" ∧ nonSystemCount post = 0 := by
  obtain ⟨m, hm⟩ := List.exists_mem_of_length_pos h
  obtain ⟨hmem, hs⟩ := List.mem_filter.mp hm
  cases hr : rposition (fun m : CompactMessage => m.role != "system") messages with
  | none => rw [rposition_eq_none.mp hr m hmem] at hs; cases hs
  | some i =>
    obtain ⟨pre, y, post, he, -, hy, hpost⟩ := rposition_eq_some.mp hr
    refine ⟨pre, y, post, he, by simpa using hy, ?_⟩
    rw [nonSystemCount, List.filter_eq_nil_iff.mpr fun m hm => by simp [hpost m hm],
      List.length_nil]

/-- A window is empty only if it is to hold no non-system message and there is no
    system message. -/
theorem windowedMessages_eq_nil_iff {messages : List CompactMessage} (hne : messages ≠ []) :
    windowedMessages messages config = [] ↔
      config.maxHistoryMessages = 0 ∧ ∀ m ∈ messages, m.role ≠ "system" := by
  constructor
  · intro hnil
    obtain ⟨is, hsel, hsys⟩ := windowedMessages_selects messages config
    rw [hnil] at hsel
    have his : is = [] := List.length_eq_zero_iff.mp hsel.length_eq
    have hall : ∀ m ∈ messages, m.role ≠ "system" := by
      intro m hm hs
      obtain ⟨i, hi⟩ := List.mem_iff_getElem?.mp hm
      exact absurd (hsys i m hi hs) (by simp [his])
    refine ⟨?_, hall⟩
    -- a window of at least one holds the last non-system message
    by_contra h0
    obtain ⟨m, hm⟩ := List.exists_mem_of_ne_nil _ hne
    obtain ⟨pre, y, post, rfl, hy, hpost⟩ := exists_last_nonSystem
      (List.length_pos_of_mem (List.mem_filter.mpr ⟨hm, by simpa using hall m hm⟩))
    have hlt : nonSystemCount post < config.maxHistoryMessages := by omega
    obtain ⟨_, _, he, -⟩ := windowedMessages_split pre hy hlt
    rw [hnil] at he
    simp at he
  · rintro ⟨h0, hall⟩
    cases messages with
    | nil => exact absurd rfl hne
    | cons x post =>
      have hx := hall x List.mem_cons_self
      unfold windowedMessages
      rw [if_pos (by rw [← List.nil_append (x :: post), nonSystemMessages_length hx]; omega),
        List.map_eq_nil_iff, List.filter_eq_nil_iff]
      rintro ⟨m, i⟩ he
      have hs := hall m (List.fst_mem_of_mem_zipIdx he)
      simp [hs, keptIndices, h0]

/-- The window drops a message if there are too many non-system messages. -/
theorem windowedMessages_length_lt {messages : List CompactMessage}
    (h : config.maxHistoryMessages < nonSystemCount messages) :
    (windowedMessages messages config).length < messages.length := by
  obtain ⟨pre, x, post, rfl, hx, hpre⟩ := exists_first_nonSystem (Nat.zero_lt_of_lt h)
  have hcount : nonSystemCount (pre ++ x :: post) = nonSystemCount post + 1 := by
    rw [← length_filter_zipIdx _ 0, ← nonSystemMessages, nonSystemMessages_length hx, hpre,
      Nat.zero_add]
  unfold windowedMessages
  rw [if_pos (by rw [nonSystemMessages_length hx]; omega), List.length_map,
    ← List.length_zipIdx (l := pre ++ x :: post) (i := 0)]
  refine List.length_filter_lt_length_iff_exists.mpr ⟨(x, pre.length), ?_, ?_⟩
  · rw [List.mem_zipIdx_iff_getElem?]
    simp
  · have hnot : pre.length ∉ keptIndices (pre ++ x :: post) config :=
      fun hi => Nat.lt_irrefl _ (lt_of_mem_keptIndices hx (by omega) hi)
    simp [hx, hnot]

/-- The window keeps everything if there are few non-system messages. -/
theorem windowedMessages_eq_self {messages : List CompactMessage}
    (h : nonSystemCount messages ≤ config.maxHistoryMessages) :
    windowedMessages messages config = messages := by
  unfold windowedMessages
  rw [if_neg]
  rw [nonSystemMessages, length_filter_zipIdx]
  omega

end Window

/-! ## When compaction fires -/

/-- `compact` marks its result compressed when the token threshold or the window
    is exceeded, unless the window would be left empty. -/
theorem compact_wasCompressed_iff (U : Unicode) {messages : List CompactMessage}
    (hne : messages ≠ []) (config : CompactorConfig) :
    (compact U messages config).wasCompressed = true ↔
      (config.tokenThreshold ≤ totalTokens messages ∨
        config.maxHistoryMessages < nonSystemCount messages) ∧
      ¬ (config.maxHistoryMessages = 0 ∧ ∀ m ∈ messages, m.role ≠ "system") := by
  rw [← windowedMessages_eq_nil_iff hne]
  have hself : nonSystemCount messages ≤ config.maxHistoryMessages →
      windowedMessages messages config = messages := windowedMessages_eq_self
  -- past the window the threshold is exceeded, by the input if the window keeps it
  have hpast : config.tokenThreshold ≤ totalTokens (windowedMessages messages config) →
      config.tokenThreshold ≤ totalTokens messages ∨
        config.maxHistoryMessages < nonSystemCount messages := by
    intro hover
    rcases Nat.lt_or_ge config.maxHistoryMessages (nonSystemCount messages) with h | h
    · exact .inr h
    · exact .inl (hself h ▸ hover)
  have hpath := compact_path U messages config
  generalize compact U messages config = r at hpath ⊢
  cases hpath with
  | identity hid =>
    refine iff_of_false (by simp [uncompressed]) ?_
    rintro ⟨hexceeds, hw⟩
    rcases hid with ⟨htokens, hlen⟩ | hnil
    · have : nonSystemCount messages ≤ messages.length := List.length_filter_le _ _
      omega
    · exact hw hnil
  | window hw hlt =>
    rw [and_iff_left hw]
    change decide (prunedByWindow messages config > 0) = true ↔ _
    rw [decide_eq_true_eq, gt_iff_lt, prunedByWindow, Nat.sub_pos_iff_lt]
    constructor
    · intro hpruned
      refine .inr (Nat.lt_of_not_le fun h => ?_)
      rw [hself h] at hpruned
      exact Nat.lt_irrefl _ hpruned
    · intro hexceeds
      have hcount : config.maxHistoryMessages < nonSystemCount messages := by
        by_contra h
        rw [hself (Nat.le_of_not_lt h)] at hlt
        omega
      exact windowedMessages_length_lt hcount
  | stopWords hw hover _ => exact iff_of_true rfl ⟨hpast hover, hw⟩
  | pruned hrest hover _ =>
    refine iff_of_true rfl ⟨hpast hover, fun hw => hrest ?_⟩
    rw [remaining, working, hw]
    rfl
  | lastOnly _ _ hw _ hover _ => exact iff_of_true rfl ⟨hpast hover, hw⟩

end Melis.Compactor.SimpleCompactor
