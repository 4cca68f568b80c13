import Melis.Compactor.Model
import Melis.Lib.Selection

/-!
# What `SimpleCompactor` keeps

Every return path of `SimpleCompactor::compact` returns a selection of its
input: positions strictly increase, roles are kept, and the only change a
message can undergo is the removal of stop words from a non-system message.
The window and the pruning index different lists; `Lib.Selects.comp` joins the
two index spaces.

* `compact_path`: the return paths, each with what it returns.
* `compact_selection`: every path returns a selection that takes every system
  message.
* `compact_selects`: the same, each system message found unchanged.
-/

namespace Melis.Compactor

open Lib

/-- `m'` is `m`, except that stop words may have been removed from the content
    of a non-system message. -/
def Trimmed (U : Unicode) (stopWords : List String) (m m' : CompactMessage) : Prop :=
  m'.role = m.role ∧
    (m'.content = m.content ∨
      m.role ≠ "system" ∧ m'.content = SimpleCompactor.removeStopWords U m.content stopWords)

section Trimmed

variable {U : Unicode} {stopWords : List String}

theorem Trimmed.refl (m : CompactMessage) : Trimmed U stopWords m m := ⟨rfl, .inl rfl⟩

theorem Trimmed.eq_of_system {m m' : CompactMessage} (h : Trimmed U stopWords m m')
    (hm : m.role = "system") : m' = m := by
  obtain ⟨hrole, hc | ⟨hne, -⟩⟩ := h
  · cases m; cases m'; simp_all
  · exact absurd hm hne

/-- Removing stop words does not make a text longer in bytes. -/
theorem len_removeStopWords_le (U : Unicode) (text : String) (stopWords : List String) :
    Text.len (SimpleCompactor.removeStopWords U text stopWords) ≤ Text.len text := by
  unfold SimpleCompactor.removeStopWords
  split_ifs
  · exact le_rfl
  · exact Text.len_joinSpace_le List.filter_sublist

theorem countTokens_mono {s t : String} (h : Text.len s ≤ Text.len t) :
    countTokens s ≤ countTokens t := by
  simp only [countTokens]
  split_ifs <;> omega

theorem Trimmed.messageTokens_le {m m' : CompactMessage} (h : Trimmed U stopWords m m') :
    messageTokens m' ≤ messageTokens m := by
  obtain ⟨hrole, hc | ⟨-, hc⟩⟩ := h
  · rw [messageTokens, messageTokens, hrole, hc]
  · rw [messageTokens, messageTokens, hrole, hc]
    exact Nat.add_le_add_left (countTokens_mono (len_removeStopWords_le U _ _)) _

end Trimmed

namespace SimpleCompactor

/-- A selection of `messages` that takes every system message. -/
structure Selection (U : Unicode) (stopWords : List String) (messages : List CompactMessage)
    (is : List ℕ) (out : List CompactMessage) : Prop where
  selects : Selects (Trimmed U stopWords) messages is out
  system : ∀ i m, messages[i]? = some m → m.role = "system" → i ∈ is

variable {U : Unicode} {windowed msgs : List CompactMessage} {config : CompactorConfig}

variable {messages : List CompactMessage}

theorem Selection.refl (stopWords : List String) :
    Selection U stopWords messages (List.range messages.length) messages where
  selects := selects_self Trimmed.refl messages
  system _ _ hm _ := List.mem_range.mpr (List.getElem?_eq_some_iff.mp hm).1

/-- A system message of the input stands unchanged in the output. -/
theorem Selection.exists_system {stopWords : List String} {is : List ℕ}
    {out : List CompactMessage} (h : Selection U stopWords messages is out) {i : ℕ}
    {m : CompactMessage} (hm : messages[i]? = some m) (hs : m.role = "system") :
    ∃ k : ℕ, is[k]? = some i ∧ out[k]? = some m := by
  obtain ⟨k, x, y, hk, hy, hx, hR⟩ := h.selects.exists_of_pos (h.system i m hm hs)
  obtain rfl : x = m := by simpa [hm] using hx.symm
  exact ⟨k, hk, by rw [hy, hR.eq_of_system hs]⟩

/-! ## The three stages -/

theorem windowedMessages_selects (messages : List CompactMessage) (config : CompactorConfig) :
    ∃ is, Selects (fun m m' => m' = m) messages is (windowedMessages messages config) ∧
      ∀ i m, messages[i]? = some m → m.role = "system" → i ∈ is := by
  unfold windowedMessages
  split_ifs
  · refine ⟨_, selects_zipIdx_filter _ messages, fun i m hm hs => ?_⟩
    exact mem_zipIdx_filter_pos.mpr ⟨m, hm, by simp [hs]⟩
  · refine ⟨_, selects_self (R := fun m m' => m' = m) (fun _ => rfl) messages,
      fun i m hm _ => ?_⟩
    exact List.mem_range.mpr (List.getElem?_eq_some_iff.mp hm).1

theorem windowedMessages_sublist (messages : List CompactMessage) (config : CompactorConfig) :
    (windowedMessages messages config).Sublist messages := by
  obtain ⟨is, hsel, -⟩ := windowedMessages_selects messages config
  exact hsel.sublist

theorem mem_eligibleIndices {i : ℕ} :
    i ∈ eligibleIndices windowed ↔
      ∃ m, windowed[i]? = some m ∧ m.role ≠ "system" ∧ some i ≠ lastUserIdx windowed := by
  simp [eligibleIndices, List.mem_zipIdx_iff_getElem?]

theorem workingMessages_selects (U : Unicode) (windowed : List CompactMessage)
    (config : CompactorConfig) :
    Selects (Trimmed U config.stopWords) windowed (List.range windowed.length)
      (workingMessages U windowed config) := by
  apply selects_zipIdx_map
  intro m i hm
  dsimp only
  split_ifs with h
  · rw [Bool.and_eq_true, List.contains_iff_mem, mem_eligibleIndices] at h
    obtain ⟨⟨m', hm', hne, -⟩, -⟩ := h
    obtain rfl : m' = m := by simpa [hm] using hm'.symm
    exact ⟨rfl, .inr ⟨hne, rfl⟩⟩
  · exact Trimmed.refl m

/-- The messages before and after stop-word removal, position by position. -/
theorem workingMessages_getElem? (U : Unicode) (config : CompactorConfig) {i : ℕ}
    {m : CompactMessage} (hm : windowed[i]? = some m) :
    (workingMessages U windowed config)[i]? =
      some (if i ∈ eligibleIndices windowed ∧ config.stopWords ≠ [] then
        { role := m.role, content := removeStopWords U m.content config.stopWords } else m) := by
  simp [workingMessages, List.getElem?_map, List.getElem?_zipIdx, hm]

theorem withoutIndices_selects (msgs : List CompactMessage) (removed : List ℕ) :
    ∃ js, Selects (fun m m' => m' = m) msgs js (withoutIndices msgs removed) ∧
      ∀ j m, msgs[j]? = some m → j ∉ removed → j ∈ js := by
  refine ⟨_, selects_zipIdx_filter _ msgs, fun j m hm hj => ?_⟩
  exact mem_zipIdx_filter_pos.mpr ⟨m, hm, by simpa using hj⟩

/-- The pruning loop removes eligible messages only. -/
theorem mem_eligible_of_mem_indicesToRemove {target i : ℕ} {eligible : List ℕ}
    (h : i ∈ indicesToRemove msgs target eligible) : i ∈ eligible := by
  obtain ⟨pre, hpre, he⟩ := pruneUntil_eq_append
    (fun removed => totalTokens (withoutIndices msgs removed)) target [] eligible
  rw [indicesToRemove, he, List.nil_append] at h
  exact hpre.subset h

/-! ## The stages composed -/

theorem selection_windowed (U : Unicode) (messages : List CompactMessage)
    (config : CompactorConfig) :
    ∃ is, Selection U config.stopWords messages is (windowedMessages messages config) := by
  obtain ⟨is, hsel, hsys⟩ := windowedMessages_selects messages config
  refine ⟨is, hsel.mono ?_, hsys⟩
  rintro m _ rfl
  exact Trimmed.refl _

theorem selection_working (U : Unicode) (messages : List CompactMessage)
    (config : CompactorConfig) :
    ∃ is, Selection U config.stopWords messages is
      (workingMessages U (windowedMessages messages config) config) := by
  obtain ⟨is, hsel, hsys⟩ := windowedMessages_selects messages config
  have hwork := workingMessages_selects U (windowedMessages messages config) config
  refine ⟨_, (hsel.comp hwork).mono fun m m' => ?_, fun i m hm hs => ?_⟩
  · rintro ⟨_, rfl, h⟩
    exact h
  · refine hsel.comp_mem (Q := fun m => m.role = "system") hsys (fun _ _ h hs => h ▸ hs) ?_ hm hs
    exact fun j _ hj _ => List.mem_range.mpr (List.getElem?_eq_some_iff.mp hj).1

/-- Removing eligible indices from the working messages. -/
theorem selection_withoutIndices (U : Unicode) (messages : List CompactMessage)
    (config : CompactorConfig) {removed : List ℕ}
    (hrem : ∀ i ∈ removed, i ∈ eligibleIndices (windowedMessages messages config)) :
    ∃ is, Selection U config.stopWords messages is
      (withoutIndices (workingMessages U (windowedMessages messages config) config) removed) := by
  obtain ⟨is, hsel⟩ := selection_working U messages config
  obtain ⟨js, hjs, hall⟩ := withoutIndices_selects
    (workingMessages U (windowedMessages messages config) config) removed
  refine ⟨_, (hsel.selects.comp hjs).mono fun m m' => ?_, fun i m hm hs => ?_⟩
  · rintro ⟨_, h, rfl⟩
    exact h
  · refine hsel.selects.comp_mem (Q := fun m => m.role = "system") hsel.system
      (fun _ _ h hs => h.1.trans hs) (fun j m' hj hs' => hall j m' hj fun hmem => ?_) hm hs
    -- a system message is not eligible, before or after stop-word removal
    obtain ⟨w, hw, hne, -⟩ := mem_eligibleIndices.mp (hrem j hmem)
    rw [workingMessages_getElem? U config hw] at hj
    have hrole : m'.role = w.role := by
      obtain rfl := Option.some.inj hj
      split_ifs <;> rfl
    exact hne (hrole.symm.trans hs')

/-! ## Return paths -/

section ReturnPaths

variable (U : Unicode) (messages : List CompactMessage) (config : CompactorConfig)

/-- `working_messages` of `compact`. -/
def working : List CompactMessage :=
  workingMessages U (windowedMessages messages config) config

/-- `messages_pruned_by_window` of `compact` (line 167). -/
def prunedByWindow : ℕ := messages.length - (windowedMessages messages config).length

/-- What the pruning loop of `compact` removes. -/
def removed : List ℕ :=
  indicesToRemove (working U messages config) (targetTokens (totalTokens messages))
    (eligibleIndices (windowedMessages messages config))

/-- What the pruning loop of `compact` leaves. -/
def remaining : List CompactMessage :=
  withoutIndices (working U messages config) (removed U messages config)

/-- The return paths of `compact`. -/
inductive ReturnPath : CompactionResult → Prop
  | identity (h : totalTokens messages < config.tokenThreshold ∧
        messages.length ≤ config.maxHistoryMessages ∨ windowedMessages messages config = []) :
      ReturnPath (uncompressed messages)
  | window (hne : windowedMessages messages config ≠ [])
      (hlt : totalTokens (windowedMessages messages config) < config.tokenThreshold) :
      ReturnPath (counted messages (windowedMessages messages config)
        (prunedByWindow messages config) (decide (prunedByWindow messages config > 0)))
  | stopWords (hne : windowedMessages messages config ≠ [])
      (hover : config.tokenThreshold ≤ totalTokens (windowedMessages messages config))
      (hle : totalTokens (working U messages config) ≤ targetTokens (totalTokens messages)) :
      ReturnPath (counted messages (working U messages config) (prunedByWindow messages config)
        true)
  | pruned (hne : remaining U messages config ≠ [])
      (hover : config.tokenThreshold ≤ totalTokens (windowedMessages messages config))
      (hlt : targetTokens (totalTokens messages) < totalTokens (working U messages config)) :
      ReturnPath (counted messages (remaining U messages config)
        (prunedByWindow messages config + (removed U messages config).length) true)
  | lastOnly (last : CompactMessage) (hlast : messages.getLast? = some last)
      (hne : windowedMessages messages config ≠ []) (hempty : remaining U messages config = [])
      (hover : config.tokenThreshold ≤ totalTokens (windowedMessages messages config))
      (hlt : targetTokens (totalTokens messages) < totalTokens (working U messages config)) :
      ReturnPath (counted messages [last]
        (prunedByWindow messages config + (removed U messages config).length) true)

end ReturnPaths

theorem workingMessages_eq_nil : workingMessages U windowed config = [] ↔ windowed = [] := by
  simp [workingMessages]

theorem compact_path (U : Unicode) (messages : List CompactMessage) (config : CompactorConfig) :
    ReturnPath U messages config (compact U messages config) := by
  unfold compact
  by_cases hskip : totalTokens messages < config.tokenThreshold ∧
      messages.length ≤ config.maxHistoryMessages
  · rw [if_pos hskip]
    exact .identity (.inl hskip)
  rw [if_neg hskip]
  dsimp only
  by_cases hw : windowedMessages messages config = []
  · -- nothing is left of the window: every path falls back to the input
    rw [hw]
    simp only [List.isEmpty_nil, if_true, compactTokens, workingMessages, List.zipIdx_nil,
      List.map_nil, totalTokens, List.sum_nil, Nat.zero_le, ite_self]
    exact .identity (.inr hw)
  split_ifs with hlt hnil
  · exact absurd hnil (by simp [hw])
  · exact .window hw hlt
  have hover := Nat.le_of_not_lt hlt
  rw [compactTokens]
  split_ifs with hle hnil
  · exact absurd (workingMessages_eq_nil.mp (List.isEmpty_iff.mp hnil)) hw
  · exact .stopWords hw hover hle
  rw [pruneOldest]
  split_ifs with hnil
  · cases hl : messages.getLast? with
    | some last =>
      exact .lastOnly last hl hw (List.isEmpty_iff.mp hnil) hover (Nat.lt_of_not_le hle)
    | none =>
      obtain rfl : messages = [] := List.getLast?_eq_none_iff.mp hl
      exact absurd (by simp [windowedMessages]) hw
  · exact .pruned (fun h => hnil (List.isEmpty_iff.mpr h)) hover (Nat.lt_of_not_le hle)

/-- What the pruning loop leaves is a selection of the input. -/
theorem selection_remaining (U : Unicode) (messages : List CompactMessage)
    (config : CompactorConfig) :
    ∃ is, Selection U config.stopWords messages is (remaining U messages config) := by
  have hrem : ∀ i ∈ removed U messages config,
      i ∈ eligibleIndices (windowedMessages messages config) :=
    fun i hi => mem_eligible_of_mem_indicesToRemove hi
  exact selection_withoutIndices U messages config hrem

/-- The pruning loop leaves something if there is a system message. -/
theorem role_ne_system_of_remaining_eq_nil (h : remaining U messages config = [])
    {m : CompactMessage} (hm : m ∈ messages) : m.role ≠ "system" := by
  intro hs
  obtain ⟨is, hsel⟩ := selection_remaining U messages config
  obtain ⟨i, hi⟩ := List.mem_iff_getElem?.mp hm
  obtain ⟨k, -, hk⟩ := hsel.exists_system hi hs
  rw [h] at hk
  simp at hk

/-- Whatever `compact` returns is a selection of its input. -/
theorem compact_selection (U : Unicode) (messages : List CompactMessage)
    (config : CompactorConfig) :
    ∃ is, Selection U config.stopWords messages is (compact U messages config).messages := by
  have hpath := compact_path U messages config
  generalize compact U messages config = r at hpath ⊢
  cases hpath with
  | identity _ => exact ⟨_, Selection.refl config.stopWords⟩
  | window _ _ => exact selection_windowed U messages config
  | stopWords _ _ _ => exact selection_working U messages config
  | pruned _ _ _ => exact selection_remaining U messages config
  | lastOnly last hlast _ hempty _ _ =>
    refine ⟨[messages.length - 1], ?_, fun i m hm hs => ?_⟩
    · refine selects_singleton ?_ (Trimmed.refl last)
      rwa [← List.getLast?_eq_getElem?]
    · exact absurd hs
        (role_ne_system_of_remaining_eq_nil hempty (List.mem_of_getElem? hm))

/-- `compact` returns messages of its input at strictly increasing positions:
    roles are kept, a content changes at most by the removal of stop words from
    a non-system message, and every system message is returned unchanged. -/
theorem compact_selects (U : Unicode) (messages : List CompactMessage)
    (config : CompactorConfig) :
    ∃ is : List ℕ,
      Selects (Trimmed U config.stopWords) messages is (compact U messages config).messages ∧
      ∀ i m, messages[i]? = some m → m.role = "system" →
        ∃ k : ℕ, is[k]? = some i ∧ (compact U messages config).messages[k]? = some m := by
  obtain ⟨is, hsel⟩ := compact_selection U messages config
  exact ⟨is, hsel.selects, fun _ _ hm hs => hsel.exists_system hm hs⟩

end SimpleCompactor

end Melis.Compactor
