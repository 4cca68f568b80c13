import Melis.Transpiler.Anthropic

/-!
# Messages of Anthropic

A `Message` is a response of Anthropic whose content is a list of text, `tool_use`
and other blocks. Responses and blocks may have further fields.

* `fromNative_message`: what `from_native` makes of a message.
-/

namespace Melis.Transpiler.Anthropic

/-- A content block. `from_native` passes over the other ones, such as `thinking`. -/
inductive ContentBlock where
  | text (text : String)
  | toolUse (id name : String) (input : Value)
  | other

namespace ContentBlock

/-- The value is the block in JSON. -/
def IsValue : ContentBlock → Value → Prop
  | .text t, v => blockType v = some "text" ∧ v.get "text" = some (.string t)
  | .toolUse id name input, v =>
    blockType v = some "tool_use" ∧ v.get "id" = some (.string id) ∧
      v.get "name" = some (.string name) ∧ v.get "input" = some input
  | .other, v => blockType v ≠ some "text" ∧ blockType v ≠ some "tool_use"

/-- The text of the block. -/
def plainText : ContentBlock → String
  | .text t => t
  | .toolUse _ _ _ => ""
  | .other => ""

/-- The block is the use of a tool. -/
def isToolUse : ContentBlock → Bool
  | .text _ => false
  | .toolUse _ _ _ => true
  | .other => false

/-- The entry of `tool_calls` for the block, if it is the use of a tool. -/
def toolCall (J : SerdeJson) : ContentBlock → Option Value
  | .text _ => none
  | .toolUse id name input =>
    some (.json [("id", .string id), ("type", .string "function"),
      ("function", .json [("name", .string name), ("arguments", .string (J.toString input))])])
  | .other => none

end ContentBlock

/-- A response whose content is a list of content blocks. -/
structure Message where
  value : Value
  blocks : List ContentBlock
  values : List Value
  content : value.get "content" = some (.array values)
  isValue : List.Forall₂ ContentBlock.IsValue blocks values

namespace Message

variable (m : Message)

/-- The texts of the message, joined. -/
def plainText : String := String.join (m.blocks.map ContentBlock.plainText)

/-- The message's `stop_reason`, if it is a string. -/
def stopReason : Option String := (m.value.get "stop_reason").bind Value.asStr

/-- The entries of `tool_calls` for the message. -/
def toolCalls (J : SerdeJson) : List Value := m.blocks.filterMap (ContentBlock.toolCall J)

/-- The message that `from_native` returns. -/
def answer (J : SerdeJson) : Value :=
  let calls := if (m.toolCalls J).isEmpty then none else some (m.toolCalls J)
  let message := Entries.ofList [("role", .string "assistant"), ("content", .string m.plainText)]
  .object (insertSome "tool_calls" (calls.map .array) message)

end Message

/-- A message that thinks, says something and uses a tool. -/
def weatherMessage : Message where
  value := .json [("content", .array
    [.json [("type", .string "thinking"), ("thinking", .string "Oslo, then.")],
      .json [("type", .string "text"), ("text", .string "Let me see.")],
      .json [("type", .string "tool_use"), ("id", .string "t1"), ("name", .string "weather"),
        ("input", .json [("city", .string "Oslo")])]]),
    ("stop_reason", .string "tool_use")]
  blocks := [.other, .text "Let me see.",
    .toolUse "t1" "weather" (.json [("city", .string "Oslo")])]
  values := [.json [("type", .string "thinking"), ("thinking", .string "Oslo, then.")],
    .json [("type", .string "text"), ("text", .string "Let me see.")],
    .json [("type", .string "tool_use"), ("id", .string "t1"), ("name", .string "weather"),
      ("input", .json [("city", .string "Oslo")])]]
  content := rfl
  isValue := .cons ⟨by decide, by decide⟩ (.cons ⟨rfl, rfl⟩ (.cons ⟨rfl, rfl, rfl, rfl⟩ .nil))

/-! ## `from_native` -/

/-- `choices[0]`. -/
def firstChoice (v : Value) : Option Value :=
  ((v.get "choices").bind Value.asArray).bind List.head?

/-- `choices[0].message`. -/
def choiceMessage (response : Value) : Option Value :=
  (firstChoice response).bind fun choice => choice.get "message"

/-- `choices[0].finish_reason`, if it is not null. -/
def finishReason (response : Value) : Option Value :=
  match (firstChoice response).bind fun choice => choice.get "finish_reason" with
  | some .null => none
  | reason => reason

/-- The text of one block in `content_text`. -/
theorem blockText_eq {b : ContentBlock} {v : Value} (h : b.IsValue v) :
    ((if blockType v == some "text" then (v.get "text").bind Value.asStr else none).getD "") =
      b.plainText := by
  match b with
  | .text t =>
    rw [h.1, h.2]
    rfl
  | .toolUse id name input =>
    rw [h.1]
    rfl
  | .other =>
    rw [if_neg (by simpa using h.1)]
    rfl

theorem contentText_cons (v : Value) (values : List Value) :
    contentText (v :: values) =
      (if blockType v == some "text" then (v.get "text").bind Value.asStr else none).getD "" ++
        contentText values := by
  rw [contentText, contentText, List.filterMap_cons]
  split
  · next h =>
    rw [h, Option.getD_none, String.empty_append]
  · next t h => rw [h, Option.getD_some, String.join_cons]

theorem contentText_eq {blocks : List ContentBlock} {values : List Value}
    (h : List.Forall₂ ContentBlock.IsValue blocks values) :
    contentText values = String.join (blocks.map ContentBlock.plainText) := by
  induction h with
  | nil => rfl
  | cons hb _ ih => rw [contentText_cons, blockText_eq hb, ih, List.map_cons, String.join_cons]

/-- The entry of `extract_tool_calls` for one block. -/
def toolCallOf (J : SerdeJson) (b : Value) : Value :=
  .json [("id", (b.get "id").getD .null), ("type", .string "function"),
    ("function", .json [("name", (b.get "name").getD .null),
      ("arguments", .string (J.toString ((b.get "input").getD (.json []))))])]

theorem toolCalls_eq (J : SerdeJson) {blocks : List ContentBlock} {values : List Value}
    (h : List.Forall₂ ContentBlock.IsValue blocks values) :
    (values.filter fun b => blockType b == some "tool_use").map (toolCallOf J) =
      blocks.filterMap (ContentBlock.toolCall J) := by
  induction h with
  | nil => rfl
  | @cons b v blocks values hb _ ih =>
    match b with
    | .text t =>
      rw [List.filter_cons_of_neg (by rw [hb.1]; decide), ih]
      rfl
    | .toolUse id name input =>
      obtain ⟨htype, hid, hname, hinput⟩ := hb
      rw [List.filter_cons_of_pos (by rw [htype]; decide), List.map_cons, ih, toolCallOf, hid,
        hname, hinput]
      rfl
    | .other =>
      rw [List.filter_cons_of_neg (by simpa using hb.2), ih]
      rfl

theorem extractToolCalls_eq (J : SerdeJson) {blocks : List ContentBlock} {values : List Value}
    (h : List.Forall₂ ContentBlock.IsValue blocks values) :
    extractToolCalls J values =
      if (blocks.filterMap (ContentBlock.toolCall J)).isEmpty then none
      else some (blocks.filterMap (ContentBlock.toolCall J)) := by
  rw [← toolCalls_eq J h]
  rfl

/-- What `from_native` makes of a message. -/
theorem fromNative_message (J : SerdeJson) (m : Message) :
    ∃ response, fromNative J m.value = .ok response ∧
      choiceMessage response = some (m.answer J) ∧
      finishReason response = some (.string (mapStopReason m.stopReason)) := by
  obtain ⟨value, blocks, values, hcontent, hvalues⟩ := m
  match value with
  | .object obj =>
    have hblocks : (Entries.get obj "content").bind Value.asArray = some values := by
      rw [← Value.get_object, hcontent]
      rfl
    refine ⟨_, rfl, ?_, ?_⟩
    · simp [choiceMessage, firstChoice, Value.get_json, Entries.get_cons, Value.asArray, hblocks,
        Message.answer, Message.plainText, Message.toolCalls, contentText_eq hvalues,
        extractToolCalls_eq J hvalues]
    · simp [finishReason, firstChoice, Value.get_json, Entries.get_cons, Value.asArray,
        Message.stopReason]

/-! ## The answer -/

section Answer

variable (J : SerdeJson) (m : Message)

@[simp] theorem answer_role : (m.answer J).get "role" = some (.string "assistant") := by
  rw [Message.answer, Value.get_object, get_insertSome_of_ne (by decide),
    Entries.get_ofList]
  rfl

@[simp] theorem answer_content : (m.answer J).get "content" = some (.string m.plainText) := by
  rw [Message.answer, Value.get_object, get_insertSome_of_ne (by decide),
    Entries.get_ofList]
  rfl

theorem answer_toolCalls (h : m.toolCalls J ≠ []) :
    (m.answer J).get "tool_calls" = some (.array (m.toolCalls J)) := by
  rw [Message.answer, if_neg (by simpa using h)]
  exact Entries.get_insert_self _ _ _

end Answer

end Melis.Transpiler.Anthropic
