import Melis.Transpiler.Message

/-!
# Tool calls there and back (`transpiler/anthropic.rs`)

`from_native` prints the input of a tool into the `arguments` string of a tool
call, and `convert_messages_to_native` parses it again when the client sends the
answer back.

* `toolUseBlock_toolCall`: one tool call.
* `toolCalls_roundTrip`: a whole answer.
-/

namespace Melis.Transpiler.Anthropic

/-- The JSON of the use of a tool. -/
def toolUseValue (id name : String) (input : Value) : Value :=
  .json [("type", .string "tool_use"), ("id", .string id), ("name", .string name),
    ("input", input)]

/-- The JSON of the block, if it is the use of a tool. -/
def ContentBlock.toolUseJson : ContentBlock → Option Value
  | .text _ => none
  | .toolUse id name input => some (toolUseValue id name input)
  | .other => none

/-- The block of a text that is sent back: none for the empty text. -/
def leadingText (text : String) : List Value :=
  if text = "" then [] else [.json [("type", .string "text"), ("text", .string text)]]

section RoundTrip

variable {J : SerdeJson}

/-- The tool call of a block becomes the block again. -/
theorem toolUseBlock_toolCall {id name : String} {input : Value}
    (h : J.fromStr (J.toString input) = some input) :
    toolUseBlock J (.json [("id", .string id), ("type", .string "function"),
      ("function", .json [("name", .string name), ("arguments", .string (J.toString input))])]) =
    toolUseValue id name input := by
  simp [toolUseBlock, toolUseValue, Value.get_json, Entries.get_cons, Value.asStr, h]

theorem map_toolUseBlock {blocks : List ContentBlock}
    (h : ∀ id name input, .toolUse id name input ∈ blocks →
      J.fromStr (J.toString input) = some input) :
    (blocks.filterMap (ContentBlock.toolCall J)).map (toolUseBlock J) =
      blocks.filterMap ContentBlock.toolUseJson := by
  induction blocks with
  | nil => rfl
  | cons b blocks ih =>
    have htail := ih fun id name input hmem => h id name input (List.mem_cons_of_mem b hmem)
    match b with
    | .text t => exact htail
    | .other => exact htail
    | .toolUse id name input =>
      show toolUseBlock J _ :: (blocks.filterMap (ContentBlock.toolCall J)).map (toolUseBlock J) = _
      rw [htail, toolUseBlock_toolCall (h id name input List.mem_cons_self)]
      rfl

variable {m : Message}

theorem toolCalls_ne_nil (h : ∃ b ∈ m.blocks, b.isToolUse = true) : m.toolCalls J ≠ [] := by
  obtain ⟨b, hb, htool⟩ := h
  match b with
  | .toolUse id name input => exact List.ne_nil_of_mem (List.mem_filterMap.mpr ⟨_, hb, rfl⟩)

/-- **Round trip.** The answer to a message that uses a tool, sent back as an
    assistant message, becomes one assistant message: the joined text as a leading
    block unless it is empty, then the same uses of tools in the same order. -/
theorem toolCalls_roundTrip (J : SerdeJson) (m : Message)
    (htool : ∃ b ∈ m.blocks, b.isToolUse = true)
    (hinputs : ∀ id name input, .toolUse id name input ∈ m.blocks →
      J.fromStr (J.toString input) = some input) :
    ∃ response answer, fromNative J m.value = .ok response ∧
      choiceMessage response = some answer ∧
      convertMessagesToNative J [answer] = [.json [("role", .string "assistant"),
        ("content", .array (leadingText m.plainText ++
          m.blocks.filterMap ContentBlock.toolUseJson))]] := by
  obtain ⟨response, hresponse, hanswer, -⟩ := fromNative_message J m
  refine ⟨response, m.answer J, hresponse, hanswer, ?_⟩
  have hcalls : m.toolCalls J ≠ [] := toolCalls_ne_nil htool
  have hblocks : toolCallBlocks J (m.answer J) (m.toolCalls J) =
      leadingText m.plainText ++ m.blocks.filterMap ContentBlock.toolUseJson := by
    rw [toolCallBlocks, answer_content, Message.toolCalls, map_toolUseBlock hinputs]
    simp [leadingText, Value.asStr, Text.isEmpty_iff]
  have hrole : role (m.answer J) = some "assistant" := by
    rw [role, answer_role]
    rfl
  have hconvert : convertMessage J (m.answer J) = .json [("role", .string "assistant"),
      ("content", .array (toolCallBlocks J (m.answer J) (m.toolCalls J)))] := by
    obtain ⟨tc, tcs, hcons⟩ := List.exists_cons_of_ne_nil hcalls
    rw [convertMessage, hrole, answer_toolCalls J m hcalls, hcons]
    rfl
  rw [convertMessagesToNative, List.filter_cons_of_pos (by rw [hrole]; decide), List.filter_nil,
    List.map_singleton, hconvert, hblocks]

/-- The answer with a text and a tool call, sent back. -/
theorem toolCalls_roundTrip_weather :
    ∃ response answer,
      fromNative (.ofTable [.json [("city", .string "Oslo")]]) weatherMessage.value = .ok response ∧
      choiceMessage response = some answer ∧
      convertMessagesToNative (.ofTable [.json [("city", .string "Oslo")]]) [answer] =
        [.json [("role", .string "assistant"),
          ("content", .array [.json [("type", .string "text"), ("text", .string "Let me see.")],
            toolUseValue "t1" "weather" (.json [("city", .string "Oslo")])])]] := by
  refine toolCalls_roundTrip (.ofTable [.json [("city", .string "Oslo")]]) weatherMessage
    ⟨_, .tail _ (.tail _ (.head _)), rfl⟩ ?_
  intro id name input hmem
  obtain ⟨-, -, rfl⟩ : id = "t1" ∧ name = "weather" ∧ input = .json [("city", .string "Oslo")] := by
    simpa [weatherMessage] using hmem
  rfl

end RoundTrip

end Melis.Transpiler.Anthropic
