import Melis.Compactor.Window

/-!
# When `SimpleCompactor` keeps the last user message

The window of `compact` keeps the last `max_history_messages` messages that are
not system messages, whatever their roles, and only then looks for the last
user message to protect.

* `user_mem_of_windowed`: a user message that is the last one of the window is
  returned, on every path.
* `mem_compact_lastUser_iff`: the last user message of the input is returned
  exactly when the window reaches it, or when the window is empty and `compact`
  gives the input back.
* `lastUser_dropped`: with a window of one, the answer to the last user message
  pushes it out.
-/

namespace Melis.Compactor.SimpleCompactor

open Lib

/-! ## The last user message of the window is protected -/

section Protected

variable {U : Unicode} {messages : List CompactMessage} {config : CompactorConfig}
  {pre post : List CompactMessage} {x : CompactMessage}

theorem lastUserIdx_eq (hx : x.role = "user") (hpost : ∀ m ∈ post, m.role ≠ "user") :
    lastUserIdx (pre ++ x :: post) = some pre.length :=
  rposition_eq_some.mpr ⟨pre, x, post, rfl, rfl, by simp [hx], fun m hm => by
    simp [hpost m hm]⟩

/-- A user message that is the last one of the window is returned. -/
theorem user_mem_of_windowed (hw : windowedMessages messages config = pre ++ x :: post)
    (hx : x.role = "user") (hpost : ∀ m ∈ post, m.role ≠ "user") :
    x ∈ (compact U messages config).messages := by
  have hget : (windowedMessages messages config)[pre.length]? = some x := by rw [hw]; simp
  have hnot : pre.length ∉ eligibleIndices (windowedMessages messages config) := by
    rw [mem_eligibleIndices, hw, lastUserIdx_eq hx hpost]
    simp
  have hwork : (working U messages config)[pre.length]? = some x := by
    rw [working, workingMessages_getElem? U config hget, if_neg fun h => hnot h.1]
  have hrem : x ∈ remaining U messages config := by
    obtain ⟨js, hjs, hall⟩ := withoutIndices_selects (working U messages config)
      (removed U messages config)
    have hj := hall _ x hwork fun h => hnot (mem_eligible_of_mem_indicesToRemove h)
    obtain ⟨k, x', y, -, hy, hx', rfl⟩ := hjs.exists_of_pos hj
    obtain rfl : y = x := by simpa [hwork] using hx'.symm
    exact List.mem_of_getElem? hy
  have hpath := compact_path U messages config
  generalize compact U messages config = r at hpath ⊢
  cases hpath with
  | identity _ =>
    exact (windowedMessages_sublist messages config).subset (List.mem_of_getElem? hget)
  | window _ _ => exact List.mem_of_getElem? hget
  | stopWords _ _ _ => exact List.mem_of_getElem? hwork
  | pruned _ _ _ => exact hrem
  | lastOnly _ _ _ hempty _ _ =>
    rw [hempty] at hrem
    simp at hrem

end Protected

/-! ## The last user message of the input -/

section LastUser

variable {U : Unicode} {messages : List CompactMessage} {config : CompactorConfig}

/-- The roles after the window are the roles of the window. -/
theorem exists_windowed_of_mem_working {m : CompactMessage} (hm : m ∈ working U messages config) :
    ∃ w ∈ windowedMessages messages config, m.role = w.role := by
  obtain ⟨i, -, w, hw, hR⟩ :=
    (workingMessages_selects U (windowedMessages messages config) config).exists_of_mem hm
  exact ⟨w, List.mem_of_getElem? hw, hR.1⟩

theorem mem_working_of_mem_remaining {m : CompactMessage} (hm : m ∈ remaining U messages config) :
    m ∈ working U messages config := by
  obtain ⟨js, hjs, -⟩ :=
    withoutIndices_selects (working U messages config) (removed U messages config)
  exact hjs.sublist.subset hm

/-- If the window has no user message, neither has the output, unless `compact`
    gives the input back. -/
theorem user_not_mem_of_windowed {pre post : List CompactMessage} {x : CompactMessage}
    (hx : x.role = "user") (hpost : ∀ m ∈ post, m.role ≠ "user")
    (h : config.maxHistoryMessages ≤ nonSystemCount post)
    (hne : windowedMessages (pre ++ x :: post) config ≠ []) :
    x ∉ (compact U (pre ++ x :: post) config).messages := by
  have hxs : x.role ≠ "system" := by rw [hx]; decide
  have hwin : ∀ w ∈ windowedMessages (pre ++ x :: post) config, w.role ≠ "user" := by
    intro w hw
    by_cases hs : w.role = "system"
    · rw [hs]; decide
    · exact hpost w (mem_post_of_mem_windowedMessages hxs h hw hs)
  have hwork : ∀ w ∈ working U (pre ++ x :: post) config, w.role ≠ "user" := by
    intro m hm
    obtain ⟨w, hw, hrole⟩ := exists_windowed_of_mem_working hm
    rw [hrole]
    exact hwin w hw
  have hpath := compact_path U (pre ++ x :: post) config
  generalize compact U (pre ++ x :: post) config = r at hpath ⊢
  cases hpath with
  | identity hid =>
    rcases hid with ⟨-, hlen⟩ | hnil
    · have : nonSystemCount post ≤ post.length := List.length_filter_le _ _
      simp only [List.length_append, List.length_cons] at hlen
      omega
    · exact absurd hnil hne
  | window _ _ => exact fun hmem => hwin x hmem hx
  | stopWords _ _ _ => exact fun hmem => hwork x hmem hx
  | pruned _ _ _ => exact fun hmem => hwork x (mem_working_of_mem_remaining hmem) hx
  | lastOnly last hlast _ hempty _ _ =>
    -- every system message survives pruning, so the window has none, and its
    -- messages stand after `x`
    obtain ⟨w, hw⟩ := List.exists_mem_of_ne_nil _ hne
    have hws := role_ne_system_of_remaining_eq_nil hempty
      ((windowedMessages_sublist _ config).subset hw)
    have hpne : post ≠ [] := List.ne_nil_of_mem (mem_post_of_mem_windowedMessages hxs h hw hws)
    rw [List.getLast?_append_of_ne_nil _ (by simp), List.getLast?_cons_of_ne_nil hpne] at hlast
    intro hmem
    obtain rfl : x = last := List.mem_singleton.mp hmem
    exact hpost x (List.mem_of_getLast? hlast) hx

/-- `compact` gives the input back when the window is empty. -/
theorem compact_messages_of_windowed_eq_nil (hnil : windowedMessages messages config = []) :
    (compact U messages config).messages = messages := by
  have hwork : working U messages config = [] := workingMessages_eq_nil.mpr hnil
  have hpath := compact_path U messages config
  generalize compact U messages config = r at hpath ⊢
  cases hpath with
  | identity _ => rfl
  | window hne _ => exact absurd hnil hne
  | stopWords hne _ _ => exact absurd hnil hne
  | pruned hne _ _ =>
    refine absurd ?_ hne
    rw [remaining, hwork]
    rfl
  | lastOnly _ _ hne _ _ _ => exact absurd hnil hne

/-- **The last user message.** `compact` returns the last user message of its
    input, unchanged, if and only if fewer than `max_history_messages`
    non-system messages follow it, or `max_history_messages` is `0` and there is
    no system message. -/
theorem mem_compact_lastUser_iff (U : Unicode) (messages : List CompactMessage)
    (config : CompactorConfig) {u : ℕ} {x : CompactMessage}
    (hu : lastUserIdx messages = some u) (hx : messages[u]? = some x) :
    x ∈ (compact U messages config).messages ↔
      nonSystemCount (messages.drop (u + 1)) < config.maxHistoryMessages ∨
        config.maxHistoryMessages = 0 ∧ ∀ m ∈ messages, m.role ≠ "system" := by
  obtain ⟨pre, y, post, rfl, rfl, hy, hpost⟩ := rposition_eq_some.mp hu
  obtain rfl : y = x := by simpa using hx
  have hrole : y.role = "user" := by simpa using hy
  have hys : y.role ≠ "system" := by rw [hrole]; decide
  have hpost' : ∀ m ∈ post, m.role ≠ "user" := fun m hm => by simpa using hpost m hm
  have hdrop : (pre ++ y :: post).drop (pre.length + 1) = post := by
    rw [List.append_cons, List.drop_left' (by simp)]
  rw [hdrop]
  by_cases h : nonSystemCount post < config.maxHistoryMessages
  · obtain ⟨pre', post', hw, hsub⟩ := windowedMessages_split pre hys h
    exact iff_of_true
      (user_mem_of_windowed hw hrole fun m hm => hpost' m (hsub.subset hm)) (.inl h)
  · have h := Nat.le_of_not_lt h
    rw [← windowedMessages_eq_nil_iff (by simp)]
    constructor
    · intro hmem
      by_contra hne
      exact user_not_mem_of_windowed hrole hpost' h (fun hnil => hne (.inr hnil)) hmem
    · rintro (hlt | hnil)
      · exact absurd hlt (Nat.not_lt_of_le h)
      · rw [compact_messages_of_windowed_eq_nil hnil]
        exact List.mem_append_right _ List.mem_cons_self

end LastUser

/-! ## Examples -/

/-- One answer after the user message, and a window of one. -/
def answered : List CompactMessage :=
  [{ role := "user", content := "hi" }, { role := "assistant", content := "hello" }]

/-- `CompactorConfig::default` with a window of one. -/
def windowOfOne : CompactorConfig := { CompactorConfig.default with maxHistoryMessages := 1 }

/-- The last user message is lost. -/
theorem lastUser_dropped :
    lastUserIdx answered = some 0 ∧
      { role := "user", content := "hi" } ∉
        (compact Unicode.ascii answered windowOfOne).messages := by
  decide

/-- The last user message is kept when nothing follows it. -/
theorem mem_compact_lastUser_single :
    { role := "user", content := "hi" } ∈
      (compact Unicode.ascii [{ role := "user", content := "hi" }] windowOfOne).messages :=
  (mem_compact_lastUser_iff Unicode.ascii [{ role := "user", content := "hi" }] windowOfOne
    (u := 0) rfl rfl).mpr (.inl (by decide))

end Melis.Compactor.SimpleCompactor
