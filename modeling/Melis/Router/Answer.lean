import Melis.Router.Frame
import Melis.Transpiler.Message

/-!
# The gateway and its own answers (`router.rs`, `transpiler/anthropic.rs`)

A client continues a conversation by sending back the message it was answered
with, and the results of the tools it was asked to use. `validate_chat_payload`
wants a non-empty content in every message, also in one that only calls tools.

* `validateChatPayload_extendMessages`: when a continued conversation is accepted.
* `answer_accepted_iff`: the answers that are accepted again.
-/

namespace Melis.Router

open Transpiler.Anthropic

/-! ## Continuing a conversation -/

/-- The payload with more messages at the end. -/
def extendMessages (payload : Value) (more : List Value) : Value :=
  payload.set "messages" (.array ((messagesOf payload).getD [] ++ more))

/-- The tool calls of a message. -/
def toolCallsOf (msg : Value) : List Value :=
  ((msg.get "tool_calls").bind Value.asArray).getD []

/-- A `tool` message with the result of a tool call. -/
structure IsToolResult (call result : Value) : Prop where
  role : result.get "role" = some (.string "tool")
  content : ∃ content, content ≠ "" ∧ result.get "content" = some (.string content)
  id : result.get "tool_call_id" = call.get "id"

theorem IsToolResult.accepted {call result : Value} (h : IsToolResult call result) :
    AcceptedMessage result := by
  obtain ⟨content, hne, hcontent⟩ := h.content
  rw [AcceptedMessage, h.role, hcontent]
  exact ⟨rfl, nonEmptyString_string_iff.mpr hne⟩

theorem acceptedMessage_results {calls results : List Value}
    (h : List.Forall₂ IsToolResult calls results) : ∀ msg ∈ results, AcceptedMessage msg := by
  induction h with
  | nil => simp
  | cons hresult _ ih => exact List.forall_mem_cons.mpr ⟨hresult.accepted, ih⟩

theorem plainText_ne_empty_iff (m : Message) :
    m.plainText ≠ "" ↔ ∃ t, .text t ∈ m.blocks ∧ t ≠ "" := by
  rw [Message.plainText]
  induction m.blocks with
  | nil => simp
  | cons b blocks ih =>
    rw [List.map_cons, String.join_cons, Ne, String.append_eq_empty_iff, not_and_or, ← Ne, ← Ne, ih]
    cases b with
    | text t => simp [ContentBlock.plainText]
    | toolUse id name input => simp [ContentBlock.plainText]
    | other => simp [ContentBlock.plainText]

theorem acceptedMessage_answer_iff (J : SerdeJson) (m : Message) :
    AcceptedMessage (m.answer J) ↔ ∃ t, .text t ∈ m.blocks ∧ t ≠ "" := by
  rw [AcceptedMessage, answer_role, answer_content, nonEmptyString_string_iff,
    nonEmptyString_string_iff, plainText_ne_empty_iff]
  exact and_iff_right (by decide)

/-- More messages are accepted after accepted ones if each of them is. -/
theorem validateChatPayload_extendMessages {payload : Value}
    (h : validateChatPayload payload = .ok ()) (more : List Value) :
    validateChatPayload (extendMessages payload more) = .ok () ↔
      ∀ msg ∈ more, AcceptedMessage msg := by
  obtain ⟨hmodel, messages, hmessages, hne, hall⟩ := validateChatPayload_iff.mp h
  match payload with
  | .object obj =>
    have hextended : extendMessages (.object obj) more =
        .object (Entries.insert "messages" (.array (messages ++ more)) obj) := by
      rw [extendMessages, messagesOf, hmessages]
      rfl
    rw [hextended, validateChatPayload_iff, Value.get_object, Value.get_object,
      Entries.get_insert_of_ne _ _ (by decide), Entries.get_insert_self]
    constructor
    · rintro ⟨-, messages', heq, -, hall'⟩ msg hmsg
      cases heq
      exact hall' msg (List.mem_append_right _ hmsg)
    · intro hmore
      refine ⟨hmodel, messages ++ more, rfl, List.append_ne_nil_of_left_ne_nil hne _, ?_⟩
      intro msg hmsg
      rcases List.mem_append.mp hmsg with hmsg | hmsg
      · exact hall msg hmsg
      · exact hmore msg hmsg

/-- **Own answers.** An accepted payload, extended with the answer to a message and
    a result for each tool call of it, is accepted if and only if some text block
    of the message is not empty: an answer that only calls tools is rejected. -/
theorem answer_accepted_iff (J : SerdeJson) {payload : Value}
    (haccepted : validateChatPayload payload = .ok ()) (m : Message) :
    ∃ response answer, fromNative J m.value = .ok response ∧
      choiceMessage response = some answer ∧
      ∀ results, List.Forall₂ IsToolResult (toolCallsOf answer) results →
        (validateChatPayload (extendMessages payload (answer :: results)) = .ok () ↔
          ∃ t, .text t ∈ m.blocks ∧ t ≠ "") := by
  obtain ⟨response, hresponse, hanswer, -⟩ := fromNative_message J m
  refine ⟨response, m.answer J, hresponse, hanswer, fun results hresults => ?_⟩
  rw [validateChatPayload_extendMessages haccepted, List.forall_mem_cons,
    acceptedMessage_answer_iff]
  exact and_iff_left (acceptedMessage_results hresults)

/-- A chat that asks one question. -/
def weatherPayload : Value :=
  .json [("model", .string "claude"), ("messages", .array
    [.json [("role", .string "user"), ("content", .string "Rain?")]])]

/-- The result of the tool that `weatherMessage` uses. -/
def weatherResult : Value :=
  .json [("role", .string "tool"), ("content", .string "No."), ("tool_call_id", .string "t1")]

theorem weatherPayload_accepted : validateChatPayload weatherPayload = .ok () := by
  rfl

/-- An answer with a text and a tool call is accepted with the result of the tool. -/
theorem answer_accepted_iff_weather :
    ∃ response answer, fromNative (.ofTable []) weatherMessage.value = .ok response ∧
      choiceMessage response = some answer ∧
      validateChatPayload (extendMessages weatherPayload [answer, weatherResult]) = .ok () := by
  obtain ⟨response, answer, hresponse, hanswer, hiff⟩ :=
    answer_accepted_iff (.ofTable []) weatherPayload_accepted weatherMessage
  refine ⟨response, answer, hresponse, hanswer, (hiff [weatherResult] ?_).mpr ?_⟩
  · have hcalls : weatherMessage.toolCalls (.ofTable []) ≠ [] := List.cons_ne_nil _ _
    obtain ⟨response', hresponse', hanswer', -⟩ := fromNative_message (.ofTable []) weatherMessage
    obtain rfl : response' = response := Except.ok.inj (hresponse'.symm.trans hresponse)
    obtain rfl : weatherMessage.answer (.ofTable []) = answer :=
      Option.some.inj (hanswer'.symm.trans hanswer)
    rw [toolCallsOf, answer_toolCalls _ _ hcalls]
    exact .cons ⟨rfl, ⟨"No.", by decide, rfl⟩, rfl⟩ .nil
  · exact ⟨"Let me see.", .tail _ (.head _), by decide⟩

/-- A message that only uses a tool. -/
def silentMessage : Message where
  value := .json [("content", .array
    [.json [("type", .string "tool_use"), ("id", .string "t1"), ("name", .string "weather"),
      ("input", .json [])]])]
  blocks := [.toolUse "t1" "weather" (.json [])]
  values := [.json [("type", .string "tool_use"), ("id", .string "t1"),
    ("name", .string "weather"), ("input", .json [])]]
  content := rfl
  isValue := .cons ⟨rfl, rfl, rfl, rfl⟩ .nil

/-- An answer that only calls a tool is rejected when it is sent back. -/
theorem silent_answer_rejected :
    validateChatPayload weatherPayload = .ok () ∧
      (∃ b ∈ silentMessage.blocks, b.isToolUse = true) ∧
      ∃ response answer, fromNative (.ofTable []) silentMessage.value = .ok response ∧
        choiceMessage response = some answer ∧
        List.Forall₂ IsToolResult (toolCallsOf answer) [weatherResult] ∧
        validateChatPayload (extendMessages weatherPayload [answer, weatherResult]) =
          .error (.badRequest "Message at index 1 must have a non-empty 'content' string field.") ∧
        ¬ validateChatPayload (extendMessages weatherPayload [answer, weatherResult]) = .ok () := by
  obtain ⟨response, hresponse, hanswer, -⟩ := fromNative_message (.ofTable []) silentMessage
  refine ⟨weatherPayload_accepted, ⟨_, .head _, rfl⟩, response, _, hresponse, hanswer, ?_, ?_, ?_⟩
  · have hcalls : silentMessage.toolCalls (.ofTable []) ≠ [] := List.cons_ne_nil _ _
    rw [toolCallsOf, answer_toolCalls _ _ hcalls]
    exact .cons ⟨rfl, ⟨"No.", by decide, rfl⟩, rfl⟩ .nil
  · rfl
  · intro h
    have hall := (validateChatPayload_extendMessages weatherPayload_accepted _).mp h
    obtain ⟨t, ht, -⟩ := (acceptedMessage_answer_iff _ _).mp (hall _ List.mem_cons_self)
    simp [silentMessage] at ht

end Melis.Router
