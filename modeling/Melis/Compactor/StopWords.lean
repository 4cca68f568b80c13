import Melis.Compactor.LastUser
import Melis.Compactor.Survivors

/-!
# Which stop words `SimpleCompactor` removes

`remove_stop_words` compares the words of a text with the configured stop words after
taking the punctuation off the words, but not off the stop words: a configured "don't"
is compared with "dont", and stays.

* `splitWhitespace_removeStopWords`, `removeStopWords_eq_empty_iff`: what
  `remove_stop_words` leaves of a text.
* `removeStopWords_spec`: it leaves the other words in order, makes no text longer, and
  leaves a text alone that has been through it.
* `not_missed`: stop words without punctuation are all removed.
* `content_ne_empty_iff`: `compact` returns no empty content exactly when no message it
  keeps has nothing but stop words.
* `stopWordsRemoved_iff`: it returns no configured stop word exactly when no message it
  keeps has one that stays.
* `not_forall_stopWordsRemoved`: it returns "don't".
-/

namespace Melis.Compactor.SimpleCompactor

open Lib

variable {U : Unicode} {stopWords : List String} {text : String}

/-- What of a word is compared with the stop words: its letters and digits, in lower
    case. -/
def comparedForm (U : Unicode) (word : String) : String :=
  String.ofList ((U.toLowercase word).toList.filter U.isAlphanumeric)

/-- `word` is one of the stop words, up to letter case. -/
def Configured (U : Unicode) (stopWords : List String) (word : String) : Prop :=
  ∃ sw ∈ stopWords, U.toLowercase word = U.toLowercase sw

/-- `word` is one of the stop words, but without its punctuation it is none. -/
def Missed (U : Unicode) (stopWords : List String) (word : String) : Prop :=
  Configured U stopWords word ∧ isStopWord U stopWords word = false

/-- The last user message of the window, among the messages returned, where `post` follow
    it (`exists_of_returned`: the last user message of the window stays the last one). A
    message returned because the window is empty is not one of the window. -/
def LastUserOfWindow (window : List CompactMessage) (m : CompactMessage)
    (post : List CompactMessage) : Prop :=
  window ≠ [] ∧ m.role = "user" ∧ ∀ m' ∈ post, m'.role ≠ "user"

/-- Past stop-word removal, what `compact` returns has no configured stop word but in
    system messages and in the last user message of the window; unless it is the last
    message alone, returned as a fallback. -/
def StopWordsRemoved (U : Unicode) (messages : List CompactMessage) (config : CompactorConfig) :
    Prop :=
  ¬ LastAlone U messages config →
    ∀ pre m post, (compact U messages config).messages = pre ++ m :: post →
      m.role ≠ "system" → ¬ LastUserOfWindow (windowedMessages messages config) m post →
      ∀ word ∈ Text.splitWhitespace m.content, ¬ Configured U config.stopWords word

/-- No trimmable message that is kept has a stop word that is missed; and if the window is
    empty, so that the input is returned, no message has a stop word at all. -/
def NoneMissed (U : Unicode) (messages : List CompactMessage) (config : CompactorConfig) :
    Prop :=
  let window := lastMessages config.maxHistoryMessages messages
  (∀ pre m post, window = pre ++ m :: post → Trimmable m post →
    Kept U messages config pre m post →
    ∀ word ∈ Text.splitWhitespace m.content, ¬ Missed U config.stopWords word) ∧
  (window = [] → ∀ m ∈ messages, ∀ word ∈ Text.splitWhitespace m.content,
    ¬ Configured U config.stopWords word)

/-- Past stop-word removal, every trimmable message of the window that is kept has a word
    that is not found to be a stop word, or there are no stop words. -/
def NoneEmptied (U : Unicode) (messages : List CompactMessage) (config : CompactorConfig) :
    Prop :=
  ReachesPruning messages config → config.stopWords ≠ [] →
    ∀ pre m post, lastMessages config.maxHistoryMessages messages = pre ++ m :: post →
      Trimmable m post → Kept U messages config pre m post →
      ∃ word ∈ Text.splitWhitespace m.content, isStopWord U config.stopWords word = false

/-! ## What is left of a text -/

/-- The words that are left, in order: those that are not found to be stop words. -/
theorem splitWhitespace_removeStopWords (U : Unicode) (text : String) (stopWords : List String) :
    Text.splitWhitespace (removeStopWords U text stopWords) =
      (Text.splitWhitespace text).filter fun word => !isStopWord U stopWords word := by
  rw [removeStopWords]
  split_ifs with hnone
  · obtain rfl : stopWords = [] := List.isEmpty_iff.mp hnone
    exact (List.filter_eq_self.mpr fun _ _ => rfl).symm
  · exact Text.splitWhitespace_joinSpace List.filter_sublist

theorem mem_splitWhitespace_removeStopWords {word : String} :
    word ∈ Text.splitWhitespace (removeStopWords U text stopWords) ↔
      word ∈ Text.splitWhitespace text ∧ isStopWord U stopWords word = false := by
  rw [splitWhitespace_removeStopWords, List.mem_filter, Bool.not_eq_true']

/-- Once removed, stop words are gone: a second pass finds none, and the single spaces of
    the first one are those that it puts back. -/
theorem removeStopWords_idem (U : Unicode) (text : String) (stopWords : List String) :
    removeStopWords U (removeStopWords U text stopWords) stopWords =
      removeStopWords U text stopWords := by
  by_cases hnone : stopWords.isEmpty
  · rw [removeStopWords, if_pos hnone]
  · rw [removeStopWords, if_neg hnone, splitWhitespace_removeStopWords, List.filter_filter]
    simp only [Bool.and_self]
    rw [removeStopWords, if_neg hnone]

/-- A word is not found if its form is that of no stop word in lower case. -/
theorem not_isStopWord_eq (U : Unicode) (stopWords : List String) (word : String) :
    (!isStopWord U stopWords word) =
      decide (∀ sw ∈ stopWords, comparedForm U word ≠ U.toLowercase sw) := by
  rw [Bool.eq_iff_iff, Bool.not_eq_true', decide_eq_true_eq, isStopWord, List.any_eq_false]
  refine forall₂_congr fun sw _ => ?_
  rw [beq_iff_eq, comparedForm, ne_comm]

/-- **What `remove_stop_words` does to a text**: it leaves, in order, the words whose
    compared form is that of no stop word in lower case; the text does not get longer, nor
    does its token count grow; and a second pass changes nothing. -/
theorem removeStopWords_spec (U : Unicode) (text : String) (stopWords : List String) :
    let result := removeStopWords U text stopWords
    Text.splitWhitespace result = (Text.splitWhitespace text).filter
        (fun word => decide (∀ sw ∈ stopWords, comparedForm U word ≠ U.toLowercase sw)) ∧
      Text.len result ≤ Text.len text ∧
      countTokens result ≤ countTokens text ∧
      removeStopWords U result stopWords = result := by
  have hwords := splitWhitespace_removeStopWords U text stopWords
  have hlen := len_removeStopWords_le U text stopWords
  simp only [not_isStopWord_eq] at hwords
  exact ⟨hwords, hlen, countTokens_mono hlen, removeStopWords_idem U text stopWords⟩

example : removeStopWords Unicode.ascii "  Please,\twait  a moment" ["please", "a"] =
    "wait moment" := by decide +kernel

/-- A text is emptied if there are stop words, and every word of it is found to be one. -/
theorem removeStopWords_eq_empty_iff (htext : text ≠ "") :
    removeStopWords U text stopWords = "" ↔
      stopWords ≠ [] ∧ ∀ word ∈ Text.splitWhitespace text, isStopWord U stopWords word = true := by
  rw [removeStopWords]
  split_ifs with hnone
  · exact iff_of_false htext fun h => h.1 (List.isEmpty_iff.mp hnone)
  · rw [Text.joinSpace_eq_empty_iff List.filter_sublist, List.filter_eq_nil_iff,
      and_iff_right (mt List.isEmpty_iff.mpr hnone)]
    simp only [Bool.not_eq_true', Bool.not_eq_false]

/-- The configured words that are left are those that are missed. -/
theorem forall_not_configured_iff :
    (∀ word ∈ Text.splitWhitespace (removeStopWords U text stopWords),
        ¬ Configured U stopWords word) ↔
      ∀ word ∈ Text.splitWhitespace text, ¬ Missed U stopWords word := by
  refine forall_congr' fun word => ?_
  rw [mem_splitWhitespace_removeStopWords, Missed, not_and', and_imp]

/-- If the stop words are alphanumeric in lower case, none is missed. -/
theorem not_missed (hclean : ∀ sw ∈ stopWords, ∀ c ∈ (U.toLowercase sw).toList,
    U.isAlphanumeric c = true) (word : String) : ¬ Missed U stopWords word := by
  rintro ⟨⟨sw, hsw, hword⟩, hnot⟩
  have hfound : isStopWord U stopWords word = true := by
    rw [isStopWord, List.any_eq_true]
    refine ⟨sw, hsw, ?_⟩
    rw [hword, List.filter_eq_self.mpr (hclean sw hsw), String.ofList_toList]
    exact beq_self_eq_true _
  rw [hfound] at hnot
  cases hnot

section Compact

variable {messages : List CompactMessage} {config : CompactorConfig}

/-! ## Emptied contents -/

/-- A stripped message has a content if there is nothing to remove, or something to
    leave. -/
theorem stripped_content_ne_empty_iff {m : CompactMessage} (hm : m.content ≠ "") :
    (stripped U config.stopWords m).content ≠ "" ↔
      (config.stopWords ≠ [] → ∃ word ∈ Text.splitWhitespace m.content,
        isStopWord U config.stopWords word = false) := by
  rw [stripped, Ne, removeStopWords_eq_empty_iff hm, not_and]
  simp only [not_forall, exists_prop, Bool.not_eq_true]

/-- A message of the window is a message of the history. -/
theorem mem_of_lastMessages_eq {pre post : List CompactMessage} {m : CompactMessage}
    (hsplit : lastMessages config.maxHistoryMessages messages = pre ++ m :: post) :
    m ∈ messages := by
  refine (windowedMessages_sublist messages config).subset ?_
  rw [windowedMessages_eq, hsplit]
  exact List.mem_append_right _ List.mem_cons_self

/-- Before step 4, with an empty window and with the last message alone, messages are
    returned as they are. -/
theorem mem_of_mem_compact
    (h : ¬ (ReachesPruning messages config ∧ windowedMessages messages config ≠ [] ∧
      ¬ LastAlone U messages config))
    {c : CompactMessage} (hc : c ∈ (compact U messages config).messages) : c ∈ messages := by
  by_cases hnil : windowedMessages messages config = []
  · rwa [compact_messages_of_windowed_eq_nil hnil] at hc
  by_cases halone : LastAlone U messages config
  · obtain ⟨-, -, -, last, hlast, hresult⟩ := halone
    rw [hresult, List.mem_singleton] at hc
    exact hc ▸ List.mem_of_getLast? hlast
  have hreach : ¬ ReachesPruning messages config := fun hreach => h ⟨hreach, hnil, halone⟩
  have htokens := totalTokens_windowedMessages_le messages config
  -- the later paths are past step 4
  have hlate : ¬ config.tokenThreshold ≤ totalTokens (windowedMessages messages config) :=
    fun hover => hreach ⟨fun hskip => by omega, Nat.not_lt_of_le hover⟩
  have hpath := compact_path U messages config
  generalize compact U messages config = r at hc hpath ⊢
  cases hpath with
  | identity _ => exact hc
  | window _ _ => exact (windowedMessages_sublist messages config).subset hc
  | stopWords _ hover _ => exact absurd hover hlate
  | pruned _ hover _ => exact absurd hover hlate
  | lastOnly _ _ _ _ hover _ => exact absurd hover hlate

/-- The compactor returns no empty content exactly if it keeps no message that it
    empties. -/
theorem content_ne_empty_iff (U : Unicode) (config : CompactorConfig)
    (hall : ∀ m ∈ messages, m.content ≠ "") :
    (∀ c ∈ (compact U messages config).messages, c.content ≠ "") ↔
      NoneEmptied U messages config := by
  constructor
  · intro h hreach hwords pre m post hsplit htrim hkept
    have hother : ¬ LastAlone U messages config :=
      fun halone => not_kept_of_lastAlone halone hsplit htrim hkept
    obtain ⟨pre', post', hreturned, -⟩ :=
      exists_returned_of_kept hreach hother hsplit htrim hkept
    have hm : m.content ≠ "" := hall m (mem_of_lastMessages_eq hsplit)
    have hcontent := h _ (hreturned ▸ List.mem_append_right _ List.mem_cons_self)
    exact (stripped_content_ne_empty_iff hm).mp hcontent hwords
  · intro h c hc
    by_cases hpast : ReachesPruning messages config ∧ windowedMessages messages config ≠ [] ∧
        ¬ LastAlone U messages config
    · obtain ⟨hreach, hne, hother⟩ := hpast
      rw [windowedMessages_eq] at hne
      obtain ⟨pre', post', hreturned⟩ := List.append_of_mem hc
      obtain ⟨pre, m, post, hsplit, -, hkept, hstripped⟩ :=
        exists_of_returned hreach hne hother hreturned
      have hm : m.content ≠ "" := hall m (mem_of_lastMessages_eq hsplit)
      rw [hstripped]
      split_ifs with htrim
      · exact (stripped_content_ne_empty_iff hm).mpr fun hwords =>
          h hreach hwords pre m post hsplit htrim (hkept htrim)
      · exact hm
    · exact hall c (mem_of_mem_compact hpast hc)

/-! ## Stop words that are returned -/

/-- With an empty window the input comes back, with its stop words. -/
theorem stopWordsRemoved_iff_of_nil (hnil : windowedMessages messages config = []) :
    StopWordsRemoved U messages config ↔
      ∀ m ∈ messages, ∀ word ∈ Text.splitWhitespace m.content,
        ¬ Configured U config.stopWords word := by
  have hother : ¬ LastAlone U messages config := by
    refine not_lastAlone (.inr (.inl ?_))
    rw [prepared_of_window_nil hnil]
    exact Nat.zero_le _
  rw [StopWordsRemoved, imp_iff_right hother, compact_messages_of_windowed_eq_nil hnil]
  constructor
  · intro h m hm
    obtain ⟨pre, post, hsplit⟩ := List.append_of_mem hm
    -- an empty window has lost no system message
    obtain ⟨-, hsystem⟩ := (windowedMessages_eq_nil_iff (List.ne_nil_of_mem hm)).mp hnil
    exact h pre m post hsplit (hsystem m hm) fun hlast => hlast.1 hnil
  · intro h pre m post hsplit _ _
    exact h m (by rw [hsplit]; exact List.mem_append_right _ List.mem_cons_self)

/-- In a window that is not empty, all but system messages and the last user message are
    trimmable. -/
theorem trimmable_of_not_lastUser {m : CompactMessage} {post : List CompactMessage}
    (hne : windowedMessages messages config ≠ []) (hs : m.role ≠ "system")
    (hlast : ¬ LastUserOfWindow (windowedMessages messages config) m post) :
    Trimmable m post :=
  ⟨hs, fun h => hlast ⟨hne, h⟩⟩

/-- **Stop words are gone exactly when** none is missed: no message that is kept, other
    than system messages and the last user message of the window, has a stop word which is
    none without its punctuation; and an empty window comes from messages without stop
    words. -/
theorem stopWordsRemoved_iff (U : Unicode) (messages : List CompactMessage)
    (config : CompactorConfig) (hreach : ReachesPruning messages config) :
    StopWordsRemoved U messages config ↔ NoneMissed U messages config := by
  have hwindow := windowedMessages_eq messages config
  rw [NoneMissed, ← hwindow]
  by_cases hnil : windowedMessages messages config = []
  · rw [stopWordsRemoved_iff_of_nil hnil, imp_iff_right hnil]
    refine (and_iff_right fun pre m post hsplit => ?_).symm
    rw [hnil] at hsplit
    exact absurd hsplit (by simp)
  rw [and_iff_left fun h => absurd h hnil, hwindow]
  have hne : lastMessages config.maxHistoryMessages messages ≠ [] := hwindow ▸ hnil
  constructor
  · intro h pre m post hsplit htrim hkept
    have hother : ¬ LastAlone U messages config :=
      fun halone => not_kept_of_lastAlone halone hsplit htrim hkept
    obtain ⟨pre', post', hreturned, htrim'⟩ :=
      exists_returned_of_kept hreach hother hsplit htrim hkept
    have hclean := h hother pre' _ post' hreturned htrim'.1 fun hlast => htrim'.2 hlast.2
    exact forall_not_configured_iff.mp hclean
  · intro h hother pre' c post' hreturned hs hlast
    obtain ⟨pre, m, post, hsplit, htrim, hkept, hc⟩ :=
      exists_of_returned hreach hne hother hreturned
    have hm : Trimmable m post := htrim.mp (trimmable_of_not_lastUser hnil hs hlast)
    rw [if_pos hm] at hc
    rw [hc]
    exact forall_not_configured_iff.mpr (h pre m post hsplit hm (hkept hm))

end Compact

/-! ## An apostrophe -/

/-- A long question, an answer and another question. -/
def contraction : List CompactMessage :=
  [{ role := "user", content := "Please tell me whether I should restart the server" },
    { role := "assistant", content := "Please don't" }, { role := "user", content := "Why?" }]

/-- The stop words are "please" and "don't", and compaction always takes place. -/
def withContraction : CompactorConfig :=
  { CompactorConfig.default with tokenThreshold := 1, stopWords := ["please", "don't"] }

/-- The long question is removed, and "don't" is left of the answer. -/
theorem not_forall_stopWordsRemoved :
    ¬ ∀ (U : Unicode) (messages : List CompactMessage) (config : CompactorConfig),
      ReachesPruning messages config → StopWordsRemoved U messages config := by
  intro h
  have hreach : ReachesPruning contraction withContraction := by decide
  have hresult : (compact Unicode.ascii contraction withContraction).messages =
      [{ role := "assistant", content := "don't" }, { role := "user", content := "Why?" }] := by
    decide +kernel
  have hother : ¬ LastAlone Unicode.ascii contraction withContraction := by
    rintro ⟨-, -, -, last, -, hlast⟩
    rw [hresult] at hlast
    exact absurd hlast (by simp)
  refine h Unicode.ascii contraction withContraction hreach hother []
    { role := "assistant", content := "don't" } [{ role := "user", content := "Why?" }]
    hresult (by decide) (fun hlast => ?_) "don't" (by decide) ⟨"don't", by decide, rfl⟩
  exact absurd hlast.2.1 (by decide)

/-- Without "don't" among the stop words, all of them are removed. -/
theorem stopWordsRemoved_please :
    StopWordsRemoved Unicode.ascii contraction
      { withContraction with stopWords := ["please"] } := by
  have hclean : ∀ sw ∈ ["please"], ∀ c ∈ (Unicode.ascii.toLowercase sw).toList,
      Unicode.ascii.isAlphanumeric c = true := by simp [Unicode.ascii]
  refine (stopWordsRemoved_iff Unicode.ascii contraction
    { withContraction with stopWords := ["please"] } (by decide)).mpr ⟨?_, ?_⟩
  · exact fun _ _ _ _ _ _ word _ => not_missed hclean word
  · exact fun hnil => absurd hnil (by decide)

end Melis.Compactor.SimpleCompactor
