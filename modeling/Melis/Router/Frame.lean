import Melis.Compactor.Accounting
import Melis.Compactor.Window
import Melis.Router.Payload

/-!
# What compaction keeps of a message object

The handler projects the client's messages to role and content, compacts the
projections and, if compaction fired, forwards objects rebuilt from them.

* `validateChatPayload_iff`: the accepted payloads.
* `runCompactor_selects`: either compactor returns messages of its input in
  order, with their roles and with no longer content.
* `wasCompressed_iff`: when compaction fires.
* `forwarded_messages`: the forwarded objects, and when they keep the fields of
  the client's.
* `toolCall_dropped`: a tool-calling conversation loses its tool calls.
-/

namespace Melis.Router

open Compactor Lib

/-! ## Accepted payloads -/

theorem nonEmptyString_string_iff {s : String} :
    nonEmptyString (some (.string s)) = true ↔ s ≠ "" := by
  rw [nonEmptyString, Bool.not_eq_true', Ne, ← Text.isEmpty_iff, Bool.not_eq_true]

theorem exists_string_of_nonEmptyString {v : Option Value} (h : nonEmptyString v = true) :
    ∃ s, v = some (.string s) := by
  unfold nonEmptyString at h
  split at h
  · next s => exact ⟨s, rfl⟩
  · cases h

/-- The message has a role and a content, and neither is empty. -/
def AcceptedMessage (msg : Value) : Prop :=
  nonEmptyString (msg.get "role") = true ∧ nonEmptyString (msg.get "content") = true

theorem validateMessages_iff {i : ℕ} {messages : List Value} :
    validateMessages i messages = .ok () ↔ ∀ msg ∈ messages, AcceptedMessage msg := by
  induction messages generalizing i with
  | nil => simp [validateMessages]
  | cons msg messages ih =>
    rw [validateMessages, List.forall_mem_cons, AcceptedMessage]
    split_ifs with hrole hcontent
    · simp [by simpa using hrole]
    · simp [by simpa using hcontent]
    · rw [ih]
      simp [by simpa using hrole, by simpa using hcontent]

/-- A payload is accepted if it names a model and has messages that are all
    accepted. -/
theorem validateChatPayload_iff {payload : Value} :
    validateChatPayload payload = .ok () ↔
      nonEmptyString (payload.get "model") = true ∧
        ∃ messages, payload.get "messages" = some (.array messages) ∧ messages ≠ [] ∧
          ∀ msg ∈ messages, AcceptedMessage msg := by
  constructor
  · intro h
    unfold validateChatPayload at h
    split at h
    · next model hmodel =>
      split_ifs at h with hempty
      split at h
      · cases h
      · next msg messages hmessages =>
        refine ⟨?_, msg :: messages, hmessages, List.cons_ne_nil _ _, validateMessages_iff.mp h⟩
        rw [hmodel]
        simpa [nonEmptyString] using hempty
      · cases h
    · cases h
  · rintro ⟨hmodel, messages, hmessages, hne, hall⟩
    obtain ⟨model, hget⟩ := exists_string_of_nonEmptyString hmodel
    obtain ⟨msg, tail, rfl⟩ := List.exists_cons_of_ne_nil hne
    rw [hget, nonEmptyString_string_iff] at hmodel
    rw [validateChatPayload, hget, hmessages]
    dsimp only
    rw [if_neg (mt Text.isEmpty_iff.mp hmodel)]
    exact validateMessages_iff.mpr hall

/-- A message that passes validation. -/
def ValidMessage (m : Value) : Prop :=
  ∃ role content, m.get "role" = some (.string role) ∧ m.get "content" = some (.string content)

theorem AcceptedMessage.valid {msg : Value} (h : AcceptedMessage msg) : ValidMessage msg := by
  obtain ⟨role, hrole⟩ := exists_string_of_nonEmptyString h.1
  obtain ⟨content, hcontent⟩ := exists_string_of_nonEmptyString h.2
  exact ⟨role, content, hrole, hcontent⟩

/-- An accepted payload is an object with a model and valid messages. -/
theorem validateChatPayload_ok {payload : Value} (h : validateChatPayload payload = .ok ()) :
    ∃ obj model messages, payload = .object obj ∧
      Entries.get obj "model" = some (.string model) ∧
      Entries.get obj "messages" = some (.array messages) ∧ messages ≠ [] ∧
      ∀ m ∈ messages, ValidMessage m := by
  obtain ⟨hmodel, messages, hmessages, hne, hall⟩ := validateChatPayload_iff.mp h
  obtain ⟨model, hget⟩ := exists_string_of_nonEmptyString hmodel
  match payload with
  | .object obj =>
    exact ⟨obj, model, messages, rfl, hget, hmessages, hne, fun m hm => (hall m hm).valid⟩

/-! ## Projection and compaction -/

theorem toCompactMessage_eq_some {m : Value} {c : CompactMessage} :
    toCompactMessage m = some c ↔
      m.get "role" = some (.string c.role) ∧ m.get "content" = some (.string c.content) := by
  have hstr : ∀ (v : Option Value) (s : String), v.bind Value.asStr = some s ↔
      v = some (.string s) := by
    rintro (_ | v) s
    · simp
    · cases v <;> simp [Value.asStr]
  obtain ⟨role, content⟩ := c
  cases hr : (m.get "role").bind Value.asStr with
  | none => simp [toCompactMessage, hr, ← hstr]
  | some r =>
    cases hc : (m.get "content").bind Value.asStr with
    | none => simp [toCompactMessage, hr, hc, ← hstr]
    | some t => simp [toCompactMessage, hr, hc, ← hstr]

/-- Valid messages are all projected. -/
theorem filterMap_toCompactMessage {messages : List Value}
    (h : ∀ m ∈ messages, ValidMessage m) :
    List.Forall₂ (fun m c => toCompactMessage m = some c) messages
      (messages.filterMap toCompactMessage) := by
  induction messages with
  | nil => exact .nil
  | cons m ms ih =>
    obtain ⟨role, content, hr, hc⟩ := h m List.mem_cons_self
    have hm : toCompactMessage m = some ⟨role, content⟩ := toCompactMessage_eq_some.mpr ⟨hr, hc⟩
    rw [List.filterMap_cons_some hm]
    exact .cons hm (ih fun m' hm' => h m' (List.mem_cons_of_mem m hm'))

/-- The role is kept and the content is no longer than before. -/
def Shortened (c c' : CompactMessage) : Prop :=
  c'.role = c.role ∧ Text.len c'.content ≤ Text.len c.content

theorem Trimmed.shortened {U : Unicode} {stopWords : List String} {c c' : CompactMessage}
    (h : Trimmed U stopWords c c') : Shortened c c' := by
  obtain ⟨hrole, hc | ⟨-, hc⟩⟩ := h
  · exact ⟨hrole, hc ▸ le_rfl⟩
  · exact ⟨hrole, hc ▸ len_removeStopWords_le U _ _⟩

/-- Either compactor selects and shortens. -/
theorem runCompactor_selects (U : Unicode) (config : CompactorConfig)
    (messages : List CompactMessage) :
    ∃ is, Selects Shortened messages is (runCompactor U config messages).messages := by
  unfold runCompactor
  split_ifs
  · obtain ⟨is, hsel⟩ := SemanticGuardedCompactor.compact_selects_eq .nearest U messages config
    refine ⟨is, hsel.mono ?_⟩
    rintro c _ rfl
    exact ⟨rfl, le_rfl⟩
  · obtain ⟨is, hsel⟩ := SimpleCompactor.compact_selection U messages config
    exact ⟨is, hsel.selects.mono fun _ _ => Trimmed.shortened⟩

/-! ## When compaction fires -/

/-- Compaction fires on `messages`. The semantic strategy fires from the token
    threshold on; the simple one when the threshold or the window is exceeded,
    unless the window would be left empty. -/
def Fires (config : CompactorConfig) (messages : List CompactMessage) : Prop :=
  if config.strategy == "semantic_guarded_trimming" then
    config.tokenThreshold ≤ totalTokens messages
  else
    (config.tokenThreshold ≤ totalTokens messages ∨
      config.maxHistoryMessages < SimpleCompactor.nonSystemCount messages) ∧
    ¬ (config.maxHistoryMessages = 0 ∧ ∀ m ∈ messages, m.role ≠ "system")

instance (config : CompactorConfig) (messages : List CompactMessage) :
    Decidable (Fires config messages) :=
  inferInstanceAs (Decidable (ite _ _ _))

theorem semantic_wasCompressed_iff (A : F64.Rounding) (U : Unicode) (messages : List CompactMessage)
    (config : CompactorConfig) :
    (SemanticGuardedCompactor.compact A U messages config).wasCompressed = true ↔
      config.tokenThreshold ≤ totalTokens messages := by
  unfold SemanticGuardedCompactor.compact
  dsimp only
  split_ifs with h
  · exact iff_of_false (by simp [uncompressed]) (Nat.not_le_of_lt h)
  · exact iff_of_true rfl (Nat.le_of_not_lt h)
  · exact iff_of_true rfl (Nat.le_of_not_lt h)

theorem wasCompressed_iff (U : Unicode) {messages : List CompactMessage} (hne : messages ≠ [])
    (config : CompactorConfig) :
    (runCompactor U config messages).wasCompressed = true ↔ Fires config messages := by
  unfold runCompactor Fires
  split_ifs
  · exact semantic_wasCompressed_iff .nearest U messages config
  · exact SimpleCompactor.compact_wasCompressed_iff U hne config

/-! ## The forwarded objects -/

/-- The message object has no fields other than `role` and `content`. -/
def Plain (m : Value) : Prop := ∀ k, k ≠ "role" → k ≠ "content" → m.get k = none

/-- `m'` has every field of `m` other than `content`, unchanged, and no others. -/
def KeepsFields (m m' : Value) : Prop := ∀ k, k ≠ "content" → m'.get k = m.get k

/-- The content of `m'` is a text no longer than that of `m`. -/
def ShortensContent (m m' : Value) : Prop :=
  ∃ c c', m.get "content" = some (.string c) ∧ m'.get "content" = some (.string c') ∧
    Text.len c' ≤ Text.len c

/-- `m'` is forwarded for the client's message `m`: the role is kept, the
    content is shortened at most, and the other fields are kept exactly if
    compaction did not fire or there are none. -/
structure Forwarded (fires : Prop) (m m' : Value) : Prop where
  role : m'.get "role" = m.get "role"
  content : ShortensContent m m'
  fields : KeepsFields m m' ↔ ¬ fires ∨ Plain m

theorem get_ofCompactMessage (c : CompactMessage) (k : String) :
    (ofCompactMessage c).get k =
      if k = "role" then some (.string c.role)
      else if k = "content" then some (.string c.content) else none := by
  rw [ofCompactMessage, Value.get_json]
  simp only [List.reverse_cons, List.reverse_nil, List.nil_append, List.cons_append,
    Entries.get_cons, Entries.get_nil, eq_comm (a := k)]
  by_cases h : "role" = k
  · subst h
    simp
  · by_cases h' : "content" = k <;> simp [h, h']

/-- The object rebuilt for `m`. -/
theorem forwarded_ofCompactMessage {fires : Prop} (hfires : fires) {m : Value}
    {c c' : CompactMessage} (hm : toCompactMessage m = some c) (hc : Shortened c c') :
    Forwarded fires m (ofCompactMessage c') := by
  obtain ⟨hrole, hcontent⟩ := toCompactMessage_eq_some.mp hm
  refine ⟨?_, ⟨c.content, c'.content, hcontent, ?_, hc.2⟩, ?_⟩
  · rw [get_ofCompactMessage, if_pos rfl, hrole, hc.1]
  · rw [get_ofCompactMessage, if_neg (by decide), if_pos rfl]
  · constructor
    · refine fun hkeep => .inr fun k hkr hkc => ?_
      rw [← hkeep k hkc, get_ofCompactMessage, if_neg hkr, if_neg hkc]
    · rintro (h | hplain) k hkc
      · exact absurd hfires h
      · rw [get_ofCompactMessage]
        by_cases hkr : k = "role"
        · rw [if_pos hkr, hkr, hrole, hc.1]
        · rw [if_neg hkr, if_neg hkc, hplain k hkr hkc]

/-- A message forwarded as it is. -/
theorem forwarded_self {fires : Prop} (hfires : ¬ fires) {m : Value} (hm : ValidMessage m) :
    Forwarded fires m m := by
  obtain ⟨role, content, -, hcontent⟩ := hm
  exact ⟨rfl, ⟨content, content, hcontent, hcontent, le_rfl⟩,
    iff_of_true (fun _ _ => rfl) (.inl hfires)⟩

theorem messagesOf_object {obj : Entries} {messages : List Value}
    (h : Entries.get obj "messages" = some (.array messages)) :
    messagesOf (.object obj) = some messages := by
  simp [messagesOf, h, Value.asArray]

/-- Compaction replaces the messages. -/
theorem messagesOf_set (obj : Entries) (out : List Value) :
    messagesOf ((Value.object obj).set "messages" (.array out)) = some out := by
  simp [messagesOf, Value.set, Value.asArray]

/-- The model override leaves the messages alone. -/
theorem messagesOf_overrideModel {obj : Entries} (model : String) :
    messagesOf (overrideModel (.object obj) model) = messagesOf (.object obj) := by
  simp only [messagesOf, overrideModel, Value.get_object]
  rw [Entries.get_insert_of_ne _ _ (by decide)]

section Forward

variable {obj : Entries} {messages : List Value}
  (hget : Entries.get obj "messages" = some (.array messages)) (hne : messages ≠ [])
  (hvalid : ∀ m ∈ messages, ValidMessage m)
include hget hne hvalid

/-- What is forwarded, when compaction fires and when it does not. -/
theorem messagesOf_forwardPayload (U : Unicode) (resolved : ResolvedRoute) :
    (Fires resolved.effectiveTokenConfig (messages.filterMap toCompactMessage) ∧
      messagesOf (forwardPayload U resolved (.object obj)) =
        some ((runCompactor U resolved.effectiveTokenConfig
          (messages.filterMap toCompactMessage)).messages.map ofCompactMessage)) ∨
    (¬ Fires resolved.effectiveTokenConfig (messages.filterMap toCompactMessage) ∧
      messagesOf (forwardPayload U resolved (.object obj)) = some messages) := by
  have hproj : messages.filterMap toCompactMessage ≠ [] := by
    intro h
    have := filterMap_toCompactMessage hvalid
    rw [h] at this
    exact hne (List.forall₂_nil_right_iff.mp this)
  have hfires := wasCompressed_iff U hproj resolved.effectiveTokenConfig
  have hmessages : messagesOf (overrideModel (.object obj) resolved.model) = some messages :=
    (messagesOf_overrideModel _).trans (messagesOf_object hget)
  unfold forwardPayload compactPayload
  rw [hmessages]
  dsimp only
  split_ifs with hc
  · exact .inl ⟨hfires.mp hc, messagesOf_set _ _⟩
  · exact .inr ⟨mt hfires.mpr hc, hmessages⟩

/-- The forwarded messages are read off the client's. -/
theorem forwardPayload_selects (U : Unicode) (resolved : ResolvedRoute) :
    ∃ out is, messagesOf (forwardPayload U resolved (.object obj)) = some out ∧
      Selects (Forwarded (Fires resolved.effectiveTokenConfig
        (messages.filterMap toCompactMessage))) messages is out := by
  rcases messagesOf_forwardPayload hget hne hvalid U resolved with ⟨hfires, hout⟩ | ⟨hfires, hout⟩
  · obtain ⟨is, hsel⟩ := runCompactor_selects U resolved.effectiveTokenConfig
      (messages.filterMap toCompactMessage)
    refine ⟨_, _, hout, ((selects_of_forall₂ (filterMap_toCompactMessage hvalid)).comp hsel).map
      ofCompactMessage ?_⟩
    rintro m c' ⟨c, hm, hshort⟩
    exact forwarded_ofCompactMessage hfires hm hshort
  · exact ⟨messages, _, hout, selects_of_forall₂ (List.forall₂_same.mpr fun m hm =>
      forwarded_self hfires (hvalid m hm))⟩

end Forward

/-- With the semantic strategy, no threshold and no target to meet, every message
    is rebuilt. -/
def rebuildAll (messages : List CompactMessage) : CompactorConfig :=
  { CompactorConfig.default with
    tokenThreshold := 0, strategy := "semantic_guarded_trimming"
    minFinalTokens := totalTokens messages + 1 }

theorem fires_rebuildAll (messages : List CompactMessage) :
    Fires (rebuildAll messages) messages := by
  simp [Fires, rebuildAll]

/-- `rebuildAll` removes nothing. -/
theorem runCompactor_rebuildAll (U : Unicode) (messages : List CompactMessage) :
    (runCompactor U (rebuildAll messages) messages).messages = messages := by
  unfold runCompactor
  rw [if_pos (by rfl)]
  refine SemanticGuardedCompactor.compact_messages_of_lt_target (Nat.zero_le _) ?_
  exact Nat.lt_of_lt_of_le (Nat.lt_succ_self _) (Nat.le_max_right _ _)

/-- If the fields are kept under every configuration, there are none to lose. -/
theorem plain_of_forall_keepsFields (U : Unicode) {obj : Entries} {messages : List Value}
    (hget : Entries.get obj "messages" = some (.array messages)) (hne : messages ≠ [])
    (hvalid : ∀ m ∈ messages, ValidMessage m)
    (h : ∀ resolved : ResolvedRoute, ∃ out is,
      messagesOf (forwardPayload U resolved (.object obj)) = some out ∧
        Selects KeepsFields messages is out) {m : Value} (hm : m ∈ messages) : Plain m := by
  let resolved : ResolvedRoute :=
    { model := "", effectiveTokenConfig := rebuildAll (messages.filterMap toCompactMessage)
      providers := [] }
  have hproj := filterMap_toCompactMessage hvalid
  obtain ⟨out, is, hout, hsel⟩ := h resolved
  have hrebuilt : out = (messages.filterMap toCompactMessage).map ofCompactMessage := by
    rcases messagesOf_forwardPayload hget hne hvalid U resolved with ⟨-, ho⟩ | ⟨hnot, -⟩
    · rw [hout, runCompactor_rebuildAll] at ho
      exact Option.some.inj ho
    · exact absurd (fires_rebuildAll _) hnot
  -- nothing is dropped, so each message is compared with its own projection
  have hlen : out.length = messages.length := by rw [hrebuilt, List.length_map, hproj.length_eq]
  obtain ⟨i, hi⟩ := List.mem_iff_getElem?.mp hm
  obtain ⟨hlt, -⟩ := List.getElem?_eq_some_iff.mp hi
  have his : is[i]? = some i := by rw [hsel.eq_range hlen, List.getElem?_range hlt]
  have hy : out[i]? = some out[i] := List.getElem?_eq_getElem (hlen ▸ hlt)
  obtain ⟨m', hm', hkeep⟩ := hsel.getElem? his hy
  obtain rfl : m' = m := by simpa [hi] using hm'.symm
  intro k hkr hkc
  rw [← hkeep k hkc]
  simp only [hrebuilt, List.getElem_map]
  rw [get_ofCompactMessage, if_neg hkr, if_neg hkc]

/-- **Forwarded messages.** The messages forwarded for an accepted payload are
    read off the client's in order, each with its role kept, its content at most
    shortened, and its other fields kept exactly if compaction did not fire or
    it has none. Under every compactor configuration the fields are kept exactly
    if no message has any. -/
theorem forwarded_messages (U : Unicode) {payload : Value}
    (h : validateChatPayload payload = .ok ()) :
    ∃ messages, messagesOf payload = some messages ∧
      (∀ resolved : ResolvedRoute, ∃ out is,
        messagesOf (forwardPayload U resolved payload) = some out ∧
          Selects (Forwarded (Fires resolved.effectiveTokenConfig
            (messages.filterMap toCompactMessage))) messages is out) ∧
      ((∀ resolved : ResolvedRoute, ∃ out is,
        messagesOf (forwardPayload U resolved payload) = some out ∧
          Selects (fun m m' => KeepsFields m m' ∧ ShortensContent m m') messages is out) ↔
        ∀ m ∈ messages, Plain m) := by
  obtain ⟨obj, model, messages, rfl, -, hget, hne, hvalid⟩ := validateChatPayload_ok h
  refine ⟨messages, messagesOf_object hget, forwardPayload_selects hget hne hvalid U, ?_⟩
  constructor
  · intro hkeep m hm
    refine plain_of_forall_keepsFields U hget hne hvalid (fun resolved => ?_) hm
    obtain ⟨out, is, hout, hsel⟩ := hkeep resolved
    exact ⟨out, is, hout, hsel.mono fun _ _ h => h.1⟩
  · intro hplain resolved
    obtain ⟨out, is, hout, hsel⟩ := forwardPayload_selects hget hne hvalid U resolved
    exact ⟨out, is, hout, hsel.mono_mem fun m hm m' hf =>
      ⟨hf.fields.mpr (.inr (hplain m hm)), hf.content⟩⟩

/-! ## Example -/

/-- A question, a tool call and the tool's answer. -/
def toolConversation : List Value :=
  [.json [("role", .string "user"), ("content", .string "what is 2 + 2?")],
    .json [("role", .string "assistant"), ("content", .string "adding"),
      ("tool_calls", .array [.json [("id", .string "call_1"), ("type", .string "function"),
        ("function", .json [("name", .string "add"), ("arguments", .string "[2, 2]")])]])],
    .json [("role", .string "tool"), ("tool_call_id", .string "call_1"), ("content", .string "4")]]

def toolPayload : Value :=
  .json [("model", .string "gpt-4o"), ("messages", .array toolConversation)]

/-- The global defaults with the semantic strategy and a threshold of ten
    tokens. -/
def semanticRoute : ResolvedRoute where
  model := "gpt-4o"
  effectiveTokenConfig :=
    { CompactorConfig.default with
      tokenThreshold := 10, strategy := "semantic_guarded_trimming" }
  providers := []

/-- `toolConversation` as the compactors see it. -/
def projectedTools : List CompactMessage :=
  [{ role := "user", content := "what is 2 + 2?" }, { role := "assistant", content := "adding" },
    { role := "tool", content := "4" }]

theorem runCompactor_projectedTools :
    (runCompactor Unicode.ascii semanticRoute.effectiveTokenConfig projectedTools).messages =
      projectedTools := by
  have hthreshold : semanticRoute.effectiveTokenConfig.tokenThreshold ≤
      totalTokens projectedTools := by decide
  have htarget : totalTokens projectedTools < 200 := by decide
  exact SemanticGuardedCompactor.compact_messages_of_lt_target hthreshold
    (Nat.lt_of_lt_of_le htarget (Nat.le_max_right _ _))

/-- The assistant's call is forwarded without its `tool_calls`, and the tool's
    answer without its `tool_call_id`. -/
theorem toolCall_dropped :
    validateChatPayload toolPayload = .ok () ∧ messagesOf toolPayload = some toolConversation ∧
      messagesOf (forwardPayload Unicode.ascii semanticRoute toolPayload) =
        some (projectedTools.map ofCompactMessage) ∧
      ¬ ∃ is, Selects KeepsFields toolConversation is (projectedTools.map ofCompactMessage) := by
  refine ⟨rfl, rfl, ?_, ?_⟩
  · have hproj : toolConversation.filterMap toCompactMessage = projectedTools := rfl
    have haccept : validateChatPayload toolPayload = .ok () := rfl
    obtain ⟨obj, -, messages, hobj, -, hget, hne, hvalid⟩ := validateChatPayload_ok haccept
    obtain rfl : messages = toolConversation := by
      have := messagesOf_object hget
      rw [← hobj] at this
      exact (Option.some.inj this).symm
    rw [hobj]
    rcases messagesOf_forwardPayload hget hne hvalid Unicode.ascii semanticRoute with
      ⟨-, ho⟩ | ⟨hnot, -⟩
    · rw [ho, hproj, runCompactor_projectedTools]
    · refine absurd ?_ hnot
      rw [hproj]
      decide
  · rintro ⟨is, hsel⟩
    obtain ⟨i, -, m, hm, hkeep⟩ :=
      hsel.exists_of_mem (y := ofCompactMessage { role := "tool", content := "4" })
        (by simp [projectedTools])
    have hrole := hkeep "role" (by decide)
    have hid := hkeep "tool_call_id" (by decide)
    rw [get_ofCompactMessage] at hrole hid
    have hmem := List.mem_of_getElem? hm
    simp only [toolConversation, List.mem_cons, List.not_mem_nil, or_false] at hmem
    rcases hmem with rfl | rfl | rfl <;> simp [Value.get_json, Entries.get_cons] at hrole hid

/-- A conversation without tools. -/
def question : List Value :=
  [.json [("role", .string "user"), ("content", .string "what is 2 + 2?")]]

/-- Without tools nothing is lost. -/
theorem forwarded_messages_question : ∃ out is,
    messagesOf (forwardPayload Unicode.ascii semanticRoute
      (.json [("model", .string "gpt-4o"), ("messages", .array question)])) = some out ∧
      Selects (fun m m' => KeepsFields m m' ∧ ShortensContent m m') question is out := by
  have haccept : validateChatPayload
      (.json [("model", .string "gpt-4o"), ("messages", .array question)]) = .ok () := rfl
  obtain ⟨messages, hmessages, -, hplain⟩ := forwarded_messages Unicode.ascii haccept
  obtain rfl : question = messages := Option.some.inj hmessages
  refine hplain.mpr (fun m hm k hkr hkc => ?_) semanticRoute
  obtain rfl := List.mem_singleton.mp hm
  simp [Value.get_json, Entries.get_cons, hkr.symm, hkc.symm]

end Melis.Router
