import Melis.Compactor.StopWords
import Melis.Router.Compaction

/-!
# Contents emptied by compaction

`validate_chat_payload` accepts no message with an empty content. A message that has
nothing but stop words is accepted, and `SimpleCompactor` empties it: if it is not pruned
as well, it is forwarded with the content "".

* `forwarded_accepted`: while the compactor empties no content, the handler forwards
  accepted messages.
* `keepsContents_iff`: for an accepted payload, that is so exactly when no message that is
  emptied is kept.
* `not_forall_keepsContents`: an answer "The." is emptied.
-/

namespace Melis.Router

open Compactor Lib

/-- The compactor returns no empty content, and with a strategy that runs it the handler
    forwards messages that `validate_chat_payload` accepts. -/
def KeepsContents (U : Unicode) (payload : Value) (config : CompactorConfig) : Prop :=
  ∀ messages, messagesOf payload = some messages →
    (∀ c ∈ (SimpleCompactor.compact U (messages.filterMap toCompactMessage) config).messages,
      c.content ≠ "") ∧
    ∀ resolved : ResolvedRoute, resolved.effectiveTokenConfig = config →
      config.strategy ≠ "semantic_guarded_trimming" →
      ∀ out, messagesOf (forwardPayload U resolved payload) = some out →
        ∀ msg ∈ out, AcceptedMessage msg

/-! ## The payload -/

section Payload

variable {U : Unicode} {payload : Value} {messages : List Value} {config : CompactorConfig}

/-- The projection of an accepted message has a role and a content. -/
theorem ne_empty_of_accepted (hall : ∀ msg ∈ messages, AcceptedMessage msg) {c : CompactMessage}
    (hc : c ∈ messages.filterMap toCompactMessage) : c.role ≠ "" ∧ c.content ≠ "" := by
  obtain ⟨msg, hmsg, hproj⟩ := List.mem_filterMap.mp hc
  obtain ⟨hrole, hcontent⟩ := toCompactMessage_eq_some.mp hproj
  have haccepted := hall msg hmsg
  rw [AcceptedMessage, hrole, hcontent, nonEmptyString_string_iff,
    nonEmptyString_string_iff] at haccepted
  exact haccepted

/-- The object rebuilt from a message with a role and a content is accepted. -/
theorem acceptedMessage_ofCompactMessage {c : CompactMessage} (hrole : c.role ≠ "")
    (hcontent : c.content ≠ "") : AcceptedMessage (ofCompactMessage c) := by
  rw [AcceptedMessage, get_ofCompactMessage, get_ofCompactMessage, if_pos rfl,
    if_neg (by decide), if_pos rfl]
  exact ⟨nonEmptyString_string_iff.mpr hrole, nonEmptyString_string_iff.mpr hcontent⟩

/-- The compactor returns roles as they are. -/
theorem role_ne_empty_of_mem_compact {projected : List CompactMessage}
    (hall : ∀ m ∈ projected, m.role ≠ "") {c : CompactMessage}
    (hc : c ∈ (SimpleCompactor.compact U projected config).messages) : c.role ≠ "" := by
  obtain ⟨is, hsel⟩ := SimpleCompactor.compact_selection U projected config
  obtain ⟨i, -, m, hm, htrimmed⟩ := hsel.selects.exists_of_mem hc
  rw [htrimmed.1]
  exact hall m (List.mem_of_getElem? hm)

/-- What the handler forwards is accepted, if the simple compactor runs and empties no
    content. -/
theorem forwarded_accepted (h : validateChatPayload payload = .ok ())
    (hmessages : messagesOf payload = some messages) {resolved : ResolvedRoute}
    (hstrategy : resolved.effectiveTokenConfig.strategy ≠ "semantic_guarded_trimming")
    (hcontents : ∀ c ∈ (SimpleCompactor.compact U (messages.filterMap toCompactMessage)
      resolved.effectiveTokenConfig).messages, c.content ≠ "")
    {out : List Value} (hout : messagesOf (forwardPayload U resolved payload) = some out) :
    ∀ msg ∈ out, AcceptedMessage msg := by
  obtain ⟨-, sent, hsent, -, haccepted⟩ := validateChatPayload_iff.mp h
  obtain ⟨obj, -, sent', rfl, -, hget, hne, hvalid⟩ := validateChatPayload_ok h
  obtain rfl : sent = sent' := by
    have := hsent.symm.trans hget
    simpa using this
  obtain rfl : messages = sent := by
    rw [messagesOf_object hget] at hmessages
    exact (Option.some.inj hmessages).symm
  rcases messagesOf_forwardPayload hget hne hvalid U resolved with ⟨-, hforward⟩ | ⟨-, hforward⟩
  · rw [hforward, runCompactor_of_ne hstrategy] at hout
    obtain rfl := Option.some.inj hout
    intro msg hmsg
    obtain ⟨c, hc, rfl⟩ := List.mem_map.mp hmsg
    have hrole : c.role ≠ "" :=
      role_ne_empty_of_mem_compact (fun m hm => (ne_empty_of_accepted haccepted hm).1) hc
    exact acceptedMessage_ofCompactMessage hrole (hcontents c hc)
  · rw [hforward] at hout
    obtain rfl := Option.some.inj hout
    exact haccepted

/-- **Contents are kept exactly when** no message that is kept is emptied: every trimmable
    message of the window of an accepted payload's messages, if it is not pruned, has a
    word that is not found to be a stop word. -/
theorem keepsContents_iff (U : Unicode) (payload : Value) (config : CompactorConfig)
    (h : validateChatPayload payload = .ok ()) :
    KeepsContents U payload config ↔
      ∀ messages, messagesOf payload = some messages →
        SimpleCompactor.NoneEmptied U (messages.filterMap toCompactMessage) config := by
  obtain ⟨-, sent, hsent, -, haccepted⟩ := validateChatPayload_iff.mp h
  have hcontents : ∀ messages, messagesOf payload = some messages →
      ∀ m ∈ messages.filterMap toCompactMessage, m.content ≠ "" := by
    intro messages hmessages m hm
    obtain rfl : sent = messages := by simpa [messagesOf, hsent, Value.asArray] using hmessages
    exact (ne_empty_of_accepted haccepted hm).2
  refine forall₂_congr fun messages hmessages => ?_
  rw [← SimpleCompactor.content_ne_empty_iff U config (hcontents messages hmessages)]
  constructor
  · exact fun hkeeps => hkeeps.1
  · rintro hempty
    refine ⟨hempty, ?_⟩
    rintro resolved rfl hstrategy out hout
    exact forwarded_accepted h hmessages hstrategy hempty hout

end Payload

/-! ## An answer of one stop word -/

/-- A long question, the answer `answer` and another question. -/
def answeredMessages (answer : String) : List Value :=
  [.json [("role", .string "user"),
      ("content", .string "Please tell me whether I should restart the server")],
    .json [("role", .string "assistant"), ("content", .string answer)],
    .json [("role", .string "user"), ("content", .string "Why?")]]

def answeredWith (answer : String) : Value :=
  .json [("model", .string "gpt-4o"), ("messages", .array (answeredMessages answer))]

/-- "the" is a stop word, and compaction always takes place. -/
def stopTheConfig : CompactorConfig :=
  { CompactorConfig.default with tokenThreshold := 1, stopWords := ["the"] }

/-- The long question is pruned, and the answer is returned without its only word. -/
theorem not_forall_keepsContents :
    ¬ ∀ (U : Unicode) (payload : Value) (config : CompactorConfig),
      validateChatPayload payload = .ok () → KeepsContents U payload config := by
  intro h
  have hkeeps := h Unicode.ascii (answeredWith "The.") stopTheConfig rfl
  have hcontents := (hkeeps (answeredMessages "The.") rfl).1
  have hempty : ∃ c ∈ (SimpleCompactor.compact Unicode.ascii
      ((answeredMessages "The.").filterMap toCompactMessage) stopTheConfig).messages,
      c.content = "" := by decide +kernel
  obtain ⟨c, hc, hcontent⟩ := hempty
  exact hcontents c hc hcontent

/-- An answer with another word keeps it. -/
theorem keepsContents_answer :
    KeepsContents Unicode.ascii (answeredWith "The server.") stopTheConfig := by
  refine (keepsContents_iff Unicode.ascii (answeredWith "The server.") stopTheConfig rfl).mpr ?_
  intro messages hmessages
  obtain rfl : answeredMessages "The server." = messages := Option.some.inj hmessages
  have hwords : ∀ m ∈ SimpleCompactor.lastMessages stopTheConfig.maxHistoryMessages
      ((answeredMessages "The server.").filterMap toCompactMessage),
      ∃ word ∈ Text.splitWhitespace m.content,
        SimpleCompactor.isStopWord Unicode.ascii stopTheConfig.stopWords word = false := by
    decide +kernel
  intro _ _ pre m post hsplit _ _
  refine hwords m ?_
  rw [hsplit]
  exact List.mem_append_right _ List.mem_cons_self

end Melis.Router
