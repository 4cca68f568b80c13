import Melis.Compactor.Accounting
import Melis.Compactor.Window

/-!
# When `SimpleCompactor` is a sliding window

A sliding window keeps the last `max_history_messages` non-system messages as they
are. `SimpleCompactor` has one, but goes on to remove stop words and messages while
the tokens are over the threshold.

* `compact_keepsWindow_iff`: when nothing in the window is dropped or altered.
* `compact_messages_eq_self_iff`: when nothing at all is.
-/

namespace Melis.Compactor.SimpleCompactor

open Lib

/-! ## The window -/

/-- Position `i` is one of the last `n` non-system messages. -/
def InWindow (n : ℕ) (messages : List CompactMessage) (i : ℕ) : Prop :=
  ∃ m, messages[i]? = some m ∧ m.role ≠ "system" ∧ nonSystemCount (messages.drop (i + 1)) < n

/-- `out` consists of messages of `messages` in order and unchanged, the last `n`
    non-system messages among them. -/
def KeepsWindow (n : ℕ) (messages out : List CompactMessage) : Prop :=
  ∃ is, Selects (fun m m' => m' = m) messages is out ∧ ∀ i, InWindow n messages i → i ∈ is

/-- There is nothing to remove: every message is a system message or the last user
    message. -/
def Fixed (windowed : List CompactMessage) : Prop :=
  ∀ i m, windowed[i]? = some m → m.role = "system" ∨ lastUserIdx windowed = some i

section Window

variable {messages out : List CompactMessage} {config : CompactorConfig}

/-- The kept indices are the window. -/
theorem mem_keptIndices_iff {i : ℕ} {m : CompactMessage} (hm : messages[i]? = some m)
    (hs : m.role ≠ "system") :
    i ∈ keptIndices messages config ↔ InWindow config.maxHistoryMessages messages i := by
  obtain ⟨hi, rfl⟩ := List.getElem?_eq_some_iff.mp hm
  have hsplit : messages = messages.take i ++ messages[i] :: messages.drop (i + 1) := by
    rw [← List.drop_eq_getElem_cons, List.take_append_drop]
  have hlen : (messages.take i).length = i := List.length_take_of_le (Nat.le_of_lt hi)
  constructor
  · intro hmem
    refine ⟨_, hm, hs, Nat.lt_of_not_le fun hle => ?_⟩
    rw [hsplit] at hmem
    exact absurd (lt_of_mem_keptIndices hs hle hmem) (by rw [hlen]; exact Nat.lt_irrefl i)
  · rintro ⟨-, -, -, hlt⟩
    have hmem := mem_keptIndices_of_lt (messages.take i) hs hlt
    rwa [← hsplit, hlen] at hmem

theorem nonSystemCount_sublist (h : out.Sublist messages) :
    nonSystemCount out ≤ nonSystemCount messages := (h.filter _).length_le

/-- The window and the system messages are what `windowed_messages` takes. -/
theorem windowedMessages_positions (messages : List CompactMessage) (config : CompactorConfig) :
    ∃ is, Selects (fun m m' => m' = m) messages is (windowedMessages messages config) ∧
      ∀ i m, messages[i]? = some m →
        (i ∈ is ↔ m.role = "system" ∨ InWindow config.maxHistoryMessages messages i) := by
  unfold windowedMessages
  split_ifs with hcount
  · refine ⟨_, selects_zipIdx_filter _ messages, fun i m hm => ?_⟩
    rw [mem_zipIdx_filter_pos]
    by_cases hs : m.role = "system"
    · simp [hm, hs]
    · rw [or_iff_right hs, ← mem_keptIndices_iff hm hs]
      simp [hm, hs]
  · refine ⟨_, selects_self (R := fun m m' => m' = m) (fun _ => rfl) messages, fun i m hm => ?_⟩
    obtain ⟨hi, rfl⟩ := List.getElem?_eq_some_iff.mp hm
    refine iff_of_true (List.mem_range.mpr hi) (or_iff_not_imp_left.mpr fun hs => ⟨_, hm, hs, ?_⟩)
    -- at most `max_history_messages` in all, one of them at `i`
    have hdrop : nonSystemCount (messages.drop (i + 1)) < nonSystemCount (messages.drop i) := by
      rw [List.drop_eq_getElem_cons hi, nonSystemCount, nonSystemCount,
        List.filter_cons_of_pos (by simpa using hs)]
      exact Nat.lt_succ_self _
    have hall := nonSystemCount_sublist (List.drop_sublist i messages)
    rw [nonSystemMessages, length_filter_zipIdx] at hcount
    omega

theorem keepsWindow_self (n : ℕ) (messages : List CompactMessage) :
    KeepsWindow n messages messages :=
  ⟨_, selects_self (R := fun m m' => m' = m) (fun _ => rfl) messages,
    fun _ ⟨_, hm, _⟩ => List.mem_range.mpr (List.getElem?_eq_some_iff.mp hm).1⟩

theorem keepsWindow_windowedMessages (messages : List CompactMessage) (config : CompactorConfig) :
    KeepsWindow config.maxHistoryMessages messages (windowedMessages messages config) := by
  obtain ⟨is, hsel, hmem⟩ := windowedMessages_positions messages config
  exact ⟨is, hsel, fun i hi => (hmem i _ hi.choose_spec.1).mpr (.inr hi)⟩

/-- What keeps the window has at least its messages. -/
theorem KeepsWindow.nonSystemCount_le (h : KeepsWindow config.maxHistoryMessages messages out) :
    nonSystemCount (windowedMessages messages config) ≤ nonSystemCount out := by
  obtain ⟨is, hsel, hkeep⟩ := h
  obtain ⟨js, hwin, hmem⟩ := windowedMessages_positions messages config
  refine (hwin.filter fun m => m.role != "system").length_le_of_subset
    (hsel.filter fun m => m.role != "system") fun i hi => ?_
  obtain ⟨hij, hns⟩ := List.mem_filter.mp hi
  refine List.mem_filter.mpr ⟨hkeep i ?_, hns⟩
  obtain ⟨m, hm, hs⟩ := (Option.any_eq_true _ _).mp hns
  exact ((hmem i m hm).mp hij).resolve_left (by simpa using hs)

theorem length_filter_system (messages : List CompactMessage) :
    (messages.filter fun m => m.role == "system").length + nonSystemCount messages =
      messages.length := by
  rw [nonSystemCount]
  exact (List.filter_append_perm (fun m : CompactMessage => m.role == "system")
    messages).length_eq ▸ (List.length_append).symm

/-- What keeps the window and has no more system or other messages is the window. -/
theorem KeepsWindow.eq_windowedMessages
    (h : KeepsWindow config.maxHistoryMessages messages out)
    (hlen : out.length = (windowedMessages messages config).length)
    (hcount : nonSystemCount out = nonSystemCount (windowedMessages messages config)) :
    out = windowedMessages messages config := by
  obtain ⟨is, hsel, hkeep⟩ := h
  obtain ⟨js, hwin, hmem⟩ := windowedMessages_positions messages config
  -- the system messages of `out` are in the window, and are as many
  have hsystem : (is.filter fun i => messages[i]?.any fun m => m.role == "system") =
      js.filter fun i => messages[i]?.any fun m => m.role == "system" := by
    have hout := hsel.filter fun m => m.role == "system"
    have hwindow := hwin.filter fun m => m.role == "system"
    refine eq_of_subset_of_length hout.increasing hwindow.increasing (fun i hi => ?_) ?_
    · obtain ⟨-, hs⟩ := List.mem_filter.mp hi
      obtain ⟨m, hm, hsys⟩ := (Option.any_eq_true _ _).mp hs
      exact List.mem_filter.mpr ⟨(hmem i m hm).mpr (.inl (by simpa using hsys)), hs⟩
    · have hall := length_filter_system out
      have hall' := length_filter_system (windowedMessages messages config)
      rw [hout.length_eq, hwindow.length_eq]
      omega
  have hsub : ∀ i ∈ js, i ∈ is := by
    intro i hi
    have hlt := hwin.pos_lt hi
    have hm : messages[i]? = some messages[i] := List.getElem?_eq_getElem hlt
    rcases (hmem i _ hm).mp hi with hs | hwindow
    · have : i ∈ is.filter fun i => messages[i]?.any fun m => m.role == "system" := by
        rw [hsystem]
        exact List.mem_filter.mpr ⟨hi, by simp [hm, hs]⟩
      exact List.mem_of_mem_filter this
    · exact hkeep i hwindow
  have heq : js = is := eq_of_subset_of_length hwin.increasing hsel.increasing hsub
    (by rw [hsel.length_eq, hwin.length_eq, hlen])
  subst heq
  exact hsel.unique hwin

end Window

/-! ## Stop words and pruning -/

/-- `m` without its stop words. -/
def stripped (U : Unicode) (stopWords : List String) (m : CompactMessage) : CompactMessage :=
  { role := m.role, content := removeStopWords U m.content stopWords }

/-- The messages that may be altered have no stop words to remove. -/
def Inert (U : Unicode) (stopWords : List String) (windowed : List CompactMessage) : Prop :=
  ∀ i m, windowed[i]? = some m →
    m.role = "system" ∨ lastUserIdx windowed = some i ∨ stripped U stopWords m = m

section Stages

variable {U : Unicode} {windowed messages : List CompactMessage} {config : CompactorConfig}

theorem fixed_iff : Fixed windowed ↔ eligibleIndices windowed = [] := by
  rw [List.eq_nil_iff_forall_not_mem]
  refine forall_congr' fun i => ?_
  rw [mem_eligibleIndices]
  constructor
  · rintro h ⟨m, hm, hs, hlast⟩
    exact (h m hm).elim hs fun h => hlast h.symm
  · intro h m hm
    by_contra hnot
    rw [not_or] at hnot
    exact h ⟨m, hm, hnot.1, fun h => hnot.2 h.symm⟩

theorem stripped_nil (U : Unicode) (m : CompactMessage) : stripped U [] m = m := rfl

/-- Stop words are removed from the messages that may be altered. -/
theorem workingMessages_get (U : Unicode) (config : CompactorConfig) {i : ℕ} {m : CompactMessage}
    (hm : windowed[i]? = some m) :
    (workingMessages U windowed config)[i]? =
      some (if m.role = "system" ∨ lastUserIdx windowed = some i then m
        else stripped U config.stopWords m) := by
  have heligible : i ∈ eligibleIndices windowed ↔
      ¬ (m.role = "system" ∨ lastUserIdx windowed = some i) := by
    rw [mem_eligibleIndices, not_or]
    constructor
    · rintro ⟨m', hm', hs, hlast⟩
      obtain rfl : m' = m := Option.some.inj (hm'.symm.trans hm)
      exact ⟨hs, fun h => hlast h.symm⟩
    · exact fun ⟨hs, hlast⟩ => ⟨m, hm, hs, fun h => hlast h.symm⟩
  rw [workingMessages_getElem? U config hm]
  split_ifs with hword hkept hkept
  · exact absurd hkept (heligible.mp hword.1)
  · rfl
  · rfl
  · have hwords : config.stopWords = [] := by
      by_contra hne
      exact hword ⟨heligible.mpr hkept, hne⟩
    rw [hwords, stripped_nil]

theorem length_workingMessages : (workingMessages U windowed config).length = windowed.length := by
  rw [workingMessages, List.length_map, List.length_zipIdx]

theorem workingMessages_eq_self_iff :
    workingMessages U windowed config = windowed ↔ Inert U config.stopWords windowed := by
  constructor
  · intro h i m hm
    have hget := workingMessages_get U config hm
    rw [h, hm] at hget
    split_ifs at hget with hkept
    · exact hkept.imp_right .inl
    · exact .inr (.inr (Option.some.inj hget).symm)
  · intro h
    refine List.ext_getElem? fun i => ?_
    cases hm : windowed[i]? with
    | none =>
      rw [List.getElem?_eq_none_iff, length_workingMessages]
      exact List.getElem?_eq_none_iff.mp hm
    | some m =>
      rw [workingMessages_get U config hm]
      split_ifs with hkept
      · rfl
      · rw [not_or] at hkept
        rw [((h i m hm).resolve_left hkept.1).resolve_left hkept.2]

theorem Fixed.inert (h : Fixed windowed) (stopWords : List String) :
    Inert U stopWords windowed :=
  fun i m hm => (h i m hm).imp_right .inl

theorem map_role_workingMessages :
    (workingMessages U windowed config).map (·.role) = windowed.map (·.role) := by
  conv_rhs => rw [← List.zipIdx_map_fst 0 windowed, List.map_map]
  rw [workingMessages, List.map_map]
  refine List.map_congr_left fun e _ => ?_
  dsimp only [Function.comp_apply]
  split_ifs <;> rfl

theorem nonSystemCount_eq (messages : List CompactMessage) :
    nonSystemCount messages = ((messages.map (·.role)).filter (· != "system")).length := by
  rw [nonSystemCount, List.filter_map, List.length_map]
  rfl

theorem nonSystemCount_workingMessages :
    nonSystemCount (workingMessages U windowed config) = nonSystemCount windowed := by
  rw [nonSystemCount_eq, nonSystemCount_eq, map_role_workingMessages]

/-- Removing a message that is not a system message lowers their number. -/
theorem nonSystemCount_withoutIndices_lt {msgs : List CompactMessage} {removed : List ℕ} {i : ℕ}
    {m : CompactMessage} (hm : msgs[i]? = some m) (hs : m.role ≠ "system") (hi : i ∈ removed) :
    nonSystemCount (withoutIndices msgs removed) < nonSystemCount msgs := by
  rw [← length_filter_zipIdx msgs 0, nonSystemCount, withoutIndices, List.filter_map,
    List.length_map, List.filter_comm]
  refine List.length_filter_lt_length_iff_exists.mpr ⟨(m, i), ?_, by simp [hi]⟩
  exact List.mem_filter.mpr ⟨List.mem_zipIdx_iff_getElem?.mpr hm, by simpa using hs⟩

/-- Without eligible messages the loop removes nothing. -/
theorem remaining_of_fixed (h : Fixed (windowedMessages messages config)) :
    remaining U messages config = windowedMessages messages config := by
  rw [remaining, removed, working, workingMessages_eq_self_iff.mpr (h.inert _), fixed_iff.mp h]
  simp [indicesToRemove, pruneUntil, withoutIndices, List.zipIdx_map_fst]

/-- Otherwise it removes a message that is not a system message. -/
theorem nonSystemCount_remaining_lt (h : ¬ Fixed (windowedMessages messages config)) :
    nonSystemCount (remaining U messages config) <
      nonSystemCount (windowedMessages messages config) := by
  rw [fixed_iff] at h
  obtain ⟨i, rest, heligible⟩ := List.exists_cons_of_ne_nil h
  have hremoved : i ∈ removed U messages config := by
    rw [removed, heligible]
    exact mem_pruneUntil_cons _ _ _ _ _
  obtain ⟨m, hm, hs, -⟩ := mem_eligibleIndices.mp (heligible ▸ List.mem_cons_self)
  refine Nat.lt_of_lt_of_eq ?_ (@nonSystemCount_workingMessages U _ config)
  refine nonSystemCount_withoutIndices_lt (workingMessages_get U config hm) ?_ hremoved
  split_ifs <;> exact hs

theorem remaining_sublist (U : Unicode) (messages : List CompactMessage)
    (config : CompactorConfig) :
    (remaining U messages config).Sublist (working U messages config) := by
  obtain ⟨js, hsel, -⟩ := withoutIndices_selects (working U messages config)
    (removed U messages config)
  exact hsel.sublist

/-- A window of one message that may be removed is emptied. -/
theorem remaining_eq_nil {m : CompactMessage} (hw : windowedMessages messages config = [m])
    (h : ¬ Fixed (windowedMessages messages config)) : remaining U messages config = [] := by
  have hlt := nonSystemCount_remaining_lt (U := U) h
  have hlen : (working U messages config).length = 1 := by
    rw [working, length_workingMessages, hw, List.length_singleton]
  have hcount := List.length_filter_le (fun m : CompactMessage => m.role != "system")
    (windowedMessages messages config)
  rw [hw, List.length_singleton] at hcount
  have hle := (remaining_sublist U messages config).length_le
  by_contra hne
  have heq : remaining U messages config = working U messages config := by
    refine (remaining_sublist U messages config).eq_of_length ?_
    have := List.length_pos_of_ne_nil hne
    omega
  rw [heq, working, nonSystemCount_workingMessages] at hlt
  exact Nat.lt_irrefl _ hlt

/-- Such a window is stripped of its stop words first. -/
theorem working_singleton {m : CompactMessage} (hw : windowedMessages messages config = [m])
    (h : ¬ Fixed (windowedMessages messages config)) :
    working U messages config = [stripped U config.stopWords m] := by
  have hm : (windowedMessages messages config)[0]? = some m := by rw [hw]; rfl
  have hkept : ¬ (m.role = "system" ∨ lastUserIdx (windowedMessages messages config) = some 0) := by
    refine fun hkept => h fun i m' hm' => ?_
    rw [hw] at hm'
    obtain ⟨rfl, rfl⟩ : i = 0 ∧ m = m' := by simpa [List.getElem?_singleton] using hm'
    exact hkept
  have hget := workingMessages_get U config hm
  rw [if_neg hkept] at hget
  have hlen : (working U messages config).length = 1 := by
    rw [working, length_workingMessages, hw, List.length_singleton]
  obtain ⟨m', hm'⟩ := List.length_eq_one_iff.mp hlen
  rw [← working, hm'] at hget
  rw [hm', Option.some.inj hget]

theorem totalTokens_singleton (m : CompactMessage) : totalTokens [m] = messageTokens m := by
  simp [totalTokens]

theorem totalTokens_working_singleton {m : CompactMessage}
    (hw : windowedMessages messages config = [m])
    (h : ¬ Fixed (windowedMessages messages config)) :
    totalTokens (working U messages config) = messageTokens (stripped U config.stopWords m) := by
  rw [working_singleton hw h, totalTokens_singleton]

/-- Where nothing remains of a window, something could be removed. -/
theorem not_fixed_of_remaining_eq_nil (hw : windowedMessages messages config ≠ [])
    (hempty : remaining U messages config = []) : ¬ Fixed (windowedMessages messages config) :=
  fun h => hw ((remaining_of_fixed h).symm.trans hempty)

end Stages

/-! ## What `compact` keeps -/

section Compact

variable (U : Unicode) (messages : List CompactMessage) (config : CompactorConfig)

/-- The window is left as it is: its tokens are below the threshold; or there is
    nothing to remove; or there are no stop words to remove and the tokens are
    within the target; or it is one message that exceeds the target without its
    stop words, and is returned for lack of another. -/
def LeavesWindow : Prop :=
  let windowed := windowedMessages messages config
  let target := targetTokens (totalTokens messages)
  totalTokens windowed < config.tokenThreshold ∨ Fixed windowed ∨
    (totalTokens windowed ≤ target ∧ Inert U config.stopWords windowed) ∨
    ∃ m, windowed = [m] ∧ target < messageTokens (stripped U config.stopWords m)

/-- The history is left as it is although compaction fires: it fits the window, and
    there is nothing to remove or only one message. -/
def LeavesAll : Prop :=
  nonSystemCount messages ≤ config.maxHistoryMessages ∧
    (Fixed messages ∨ ∃ m, messages = [m] ∧
      targetTokens (totalTokens messages) < messageTokens (stripped U config.stopWords m))

variable {U messages config}

/-- The three ways past the threshold, where the pruning loop runs. -/
theorem not_leavesWindow
    (hover : config.tokenThreshold ≤ totalTokens (windowedMessages messages config))
    (hlt : targetTokens (totalTokens messages) < totalTokens (working U messages config))
    (hfixed : ¬ Fixed (windowedMessages messages config))
    (hsingle : ∀ m, windowedMessages messages config ≠ [m]) :
    ¬ LeavesWindow U messages config := by
  rintro (hlow | h | ⟨hle, hinert⟩ | ⟨m, hm, -⟩)
  · exact absurd hlow (Nat.not_lt_of_le hover)
  · exact hfixed h
  · rw [working, workingMessages_eq_self_iff.mpr hinert] at hlt
    exact absurd hle (Nat.not_le_of_lt hlt)
  · exact hsingle m hm

/-- A window of one message is the last one. -/
theorem windowedMessages_eq_last {last m : CompactMessage} (hlast : messages.getLast? = some last)
    (hs : last.role ≠ "system") (hsys : ∀ m ∈ messages, m.role ≠ "system")
    (hm : windowedMessages messages config = [m]) : windowedMessages messages config = [last] := by
  obtain ⟨pre, rfl⟩ := List.getLast?_eq_some_iff.mp hlast
  have hpos : nonSystemCount [] < config.maxHistoryMessages := by
    refine Nat.pos_of_ne_zero fun h0 => ?_
    have hnil := (windowedMessages_eq_nil_iff (by simp)).mpr ⟨h0, hsys⟩
    rw [hm] at hnil
    cases hnil
  obtain ⟨pre', post', he, -⟩ := windowedMessages_split pre hs hpos
  rw [hm] at he
  have hlen := congrArg List.length he
  simp only [List.length_cons, List.length_nil, List.length_append] at hlen
  obtain rfl : pre' = [] := List.length_eq_zero_iff.mp (by omega)
  obtain rfl : post' = [] := List.length_eq_zero_iff.mp (by omega)
  rw [hm, he, List.nil_append]

/-- The window without its stop words. -/
theorem keepsWindow_working_iff :
    KeepsWindow config.maxHistoryMessages messages (working U messages config) ↔
      Inert U config.stopWords (windowedMessages messages config) := by
  rw [← workingMessages_eq_self_iff, ← working]
  constructor
  · exact fun h => h.eq_windowedMessages length_workingMessages nonSystemCount_workingMessages
  · intro h
    rw [h]
    exact keepsWindow_windowedMessages _ _

/-- The window after the pruning loop. -/
theorem keepsWindow_remaining_iff :
    KeepsWindow config.maxHistoryMessages messages (remaining U messages config) ↔
      Fixed (windowedMessages messages config) := by
  constructor
  · intro h
    by_contra hfixed
    exact Nat.not_le_of_lt (nonSystemCount_remaining_lt hfixed) h.nonSystemCount_le
  · intro hfixed
    rw [remaining_of_fixed hfixed]
    exact keepsWindow_windowedMessages _ _

/-- One message stands for a window of one message only. -/
theorem keepsWindow_last_iff {last : CompactMessage} (hlast : messages.getLast? = some last)
    (hsys : ∀ m ∈ messages, m.role ≠ "system") (hw : windowedMessages messages config ≠ []) :
    KeepsWindow config.maxHistoryMessages messages [last] ↔
      ∃ m, windowedMessages messages config = [m] := by
  constructor
  · intro h
    have hcount : nonSystemCount (windowedMessages messages config) =
        (windowedMessages messages config).length := by
      rw [nonSystemCount, List.filter_eq_self.mpr fun m hm => ?_]
      simpa using hsys m ((windowedMessages_sublist messages config).subset hm)
    have hle : (windowedMessages messages config).length ≤ 1 :=
      hcount ▸ h.nonSystemCount_le.trans (List.length_filter_le _ _)
    exact List.length_eq_one_iff.mp (Nat.le_antisymm hle (List.length_pos_of_ne_nil hw))
  · rintro ⟨m, hm⟩
    rw [← windowedMessages_eq_last hlast (hsys last (List.mem_of_getLast? hlast)) hsys hm]
    exact keepsWindow_windowedMessages _ _

/-- When nothing in the window is dropped or altered. -/
theorem compact_keepsWindow_iff (U : Unicode) (messages : List CompactMessage)
    (config : CompactorConfig) :
    KeepsWindow config.maxHistoryMessages messages (compact U messages config).messages ↔
      LeavesWindow U messages config := by
  have hpath := compact_path U messages config
  generalize compact U messages config = r at hpath ⊢
  cases hpath with
  | identity hid =>
    refine iff_of_true (keepsWindow_self _ _) ?_
    rcases hid with ⟨htokens, -⟩ | hnil
    · exact .inl (Nat.lt_of_le_of_lt
        (totalTokens_le_of_sublist (windowedMessages_sublist messages config)) htokens)
    · exact .inr (.inl (by simp [hnil, Fixed]))
  | window hw hlt => exact iff_of_true (keepsWindow_windowedMessages _ _) (.inl hlt)
  | stopWords hw hover hle =>
    refine keepsWindow_working_iff.trans ⟨fun h => .inr (.inr (.inl ⟨?_, h⟩)), ?_⟩
    · rwa [working, workingMessages_eq_self_iff.mpr h] at hle
    · rintro (hlow | h | ⟨-, h⟩ | ⟨m, hm, hlt⟩)
      · exact absurd hlow (Nat.not_lt_of_le hover)
      · exact h.inert _
      · exact h
      · by_contra hnot
        rw [totalTokens_working_singleton hm fun h => hnot (h.inert _)] at hle
        exact absurd hlt (Nat.not_lt_of_le hle)
  | pruned hrest hover hlt =>
    refine keepsWindow_remaining_iff.trans ⟨fun h => .inr (.inl h), fun hleaves => ?_⟩
    by_contra hfixed
    exact not_leavesWindow hover hlt hfixed (fun m hm => hrest (remaining_eq_nil hm hfixed)) hleaves
  | lastOnly last hlast hw hempty hover hlt =>
    have hfixed := not_fixed_of_remaining_eq_nil hw hempty
    have hsys : ∀ m ∈ messages, m.role ≠ "system" :=
      fun m hm => role_ne_system_of_remaining_eq_nil hempty hm
    refine (keepsWindow_last_iff hlast hsys hw).trans ⟨?_, fun hleaves => ?_⟩
    · rintro ⟨m, hm⟩
      rw [totalTokens_working_singleton hm hfixed] at hlt
      exact .inr (.inr (.inr ⟨m, hm, hlt⟩))
    · by_contra hsingle
      exact not_leavesWindow hover hlt hfixed (fun m hm => hsingle ⟨m, hm⟩) hleaves

/-- Three quarters of a positive number of tokens are fewer. -/
theorem targetTokens_lt {n : ℕ} (h : 0 < n) : targetTokens n < n := by
  have hfloor : ⌊(n : ℚ) * (3 / 4)⌋ < (n : ℤ) := by
    rw [Int.floor_lt, Int.cast_natCast]
    have : (0 : ℚ) < n := Nat.cast_pos.mpr h
    linarith
  rw [targetTokens, F64.toNat_mul_finite]
  omega

/-- A history that exceeds the window is shortened when compaction fires. -/
theorem compact_length_lt (hexceeds : config.maxHistoryMessages < nonSystemCount messages)
    (hfired : (compact U messages config).wasCompressed = true) :
    (compact U messages config).messages.length < messages.length := by
  have hdropped : (windowedMessages messages config).length < messages.length :=
    windowedMessages_length_lt hexceeds
  have hpath := compact_path U messages config
  generalize compact U messages config = r at hfired hpath ⊢
  cases hpath with
  | identity _ => cases hfired
  | window _ _ => exact hdropped
  | stopWords _ _ _ => exact length_workingMessages.trans_lt hdropped
  | pruned _ _ _ =>
    refine Nat.lt_of_le_of_lt (remaining_sublist U messages config).length_le ?_
    exact length_workingMessages.trans_lt hdropped
  | lastOnly _ _ hw _ _ _ =>
    exact Nat.lt_of_le_of_lt (List.length_pos_of_ne_nil hw) hdropped

/-- A history that fits the window is left as it is if there is nothing to remove or
    only one message. -/
theorem compact_messages_eq_self_of_fits (htokens : 0 < totalTokens messages)
    (hfits : nonSystemCount messages ≤ config.maxHistoryMessages)
    (hfired : (compact U messages config).wasCompressed = true) :
    (compact U messages config).messages = messages ↔
      Fixed messages ∨ ∃ m, messages = [m] ∧
        targetTokens (totalTokens messages) < messageTokens (stripped U config.stopWords m) := by
  have hself := windowedMessages_eq_self hfits
  have hlt := targetTokens_lt htokens
  have hpath := compact_path U messages config
  generalize compact U messages config = r at hfired hpath ⊢
  cases hpath with
  | identity _ => cases hfired
  | window _ _ =>
    have hpruned : prunedByWindow messages config > 0 := of_decide_eq_true hfired
    rw [prunedByWindow, hself, Nat.sub_self] at hpruned
    cases hpruned
  | stopWords _ _ hle =>
    -- the stop words removed are a quarter of the tokens
    have hnot : working U messages config ≠ messages := by
      intro heq
      rw [heq] at hle
      exact Nat.not_le_of_lt hlt hle
    have hfixed : ¬ Fixed (windowedMessages messages config) := fun h =>
      hnot ((workingMessages_eq_self_iff.mpr (h.inert _)).trans hself)
    refine iff_of_false hnot ?_
    rintro (h | ⟨m, hm, hover⟩)
    · exact hfixed (hself.symm ▸ h)
    · rw [totalTokens_working_singleton (hself.trans hm) hfixed] at hle
      exact Nat.not_le_of_lt hover hle
  | pruned hrest _ _ =>
    by_cases hfixed : Fixed (windowedMessages messages config)
    · exact iff_of_true ((remaining_of_fixed hfixed).trans hself) (.inl (hself ▸ hfixed))
    · refine iff_of_false (fun heq => ?_) ?_
      · have hfewer := nonSystemCount_remaining_lt (U := U) hfixed
        change remaining U messages config = messages at heq
        rw [heq, hself] at hfewer
        exact Nat.lt_irrefl _ hfewer
      · rintro (h | ⟨m, hm, -⟩)
        · exact hfixed (hself.symm ▸ h)
        · exact hrest (remaining_eq_nil (hself.trans hm) hfixed)
  | lastOnly last hlast hw hempty _ hover =>
    have hfixed := not_fixed_of_remaining_eq_nil hw hempty
    constructor
    · intro heq
      refine .inr ⟨last, heq.symm, ?_⟩
      rwa [totalTokens_working_singleton (hself.trans heq.symm) hfixed] at hover
    · rintro (h | ⟨m, rfl, -⟩)
      · exact absurd (hself.symm ▸ h) hfixed
      · exact congrArg (fun m => [m]) (Option.some.inj hlast).symm

/-- When a fired compaction changes nothing. -/
theorem compact_messages_eq_self_iff (htokens : 0 < totalTokens messages)
    (hfired : (compact U messages config).wasCompressed = true) :
    (compact U messages config).messages = messages ↔ LeavesAll U messages config := by
  rw [LeavesAll]
  rcases Nat.lt_or_ge config.maxHistoryMessages (nonSystemCount messages) with hexceeds | hfits
  · refine iff_of_false (fun heq => ?_) fun h => Nat.not_le_of_lt hexceeds h.1
    exact Nat.ne_of_lt (compact_length_lt hexceeds hfired) (congrArg List.length heq)
  · rw [and_iff_right hfits]
    exact compact_messages_eq_self_of_fits htokens hfits hfired

end Compact

end Melis.Compactor.SimpleCompactor
