import Melis.Common.Json
import Melis.Common.Text

/-!
# Anthropic transpilers (`transpiler/anthropic.rs`, `transpiler/vertex_anthropic.rs`)

Requests from the OpenAI format to Anthropic's and responses back, for
Anthropic's own API and for Claude on Vertex AI. Dropped fields are only logged,
and the log is not modelled.

* `toNative_ok`: a request object with `messages` and `model` is translated, and
  keeps its `model`.
* `VertexAnthropic.toNative_ok`: for Vertex the body has no `model`.
-/

namespace Melis.Transpiler

/-- `TranspilerError` (`transpiler/mod.rs` lines 17–42), without the variants
    these transpilers do not produce. -/
inductive TranspilerError where
  | missingField (field : String)
  | invalidFieldValue (field reason : String)
deriving DecidableEq

namespace Anthropic

/-- `DEFAULT_MAX_TOKENS` (line 20). -/
def defaultMaxTokens : ℕ := 4096

/-- The message's role, if it is a string. -/
def role (msg : Value) : Option String := (msg.get "role").bind Value.asStr

/-- `extract_system_message` (lines 31–48). -/
def extractSystemMessage (messages : List Value) : Option String :=
  let systemParts := messages.filterMap fun msg =>
    if role msg == some "system" then (msg.get "content").bind Value.asStr else none
  if systemParts.isEmpty then none else some ("\n".intercalate systemParts)

/-- The block for one entry of `tool_calls` (lines 100–116). -/
def toolUseBlock (J : SerdeJson) (tc : Value) : Value :=
  let function := (tc.get "function").getD .null
  let name := ((function.get "name").bind Value.asStr).getD ""
  let argumentsRaw := (function.get "arguments").bind Value.asStr
  let input := (argumentsRaw.bind J.fromStr).getD (.json [])
  .json [("type", .string "tool_use"),
    ("id", .string (((tc.get "id").bind Value.asStr).getD "")),
    ("name", .string name), ("input", input)]

/-- The content blocks of an assistant message with `tool_calls` (lines 93–117). -/
def toolCallBlocks (J : SerdeJson) (msg : Value) (toolCalls : List Value) : List Value :=
  let text := match (msg.get "content").bind Value.asStr with
    | some text =>
      if Text.isEmpty text then []
      else [.json [("type", .string "text"), ("text", .string text)]]
    | none => []
  text ++ toolCalls.map (toolUseBlock J)

/-- The last case of `convert_messages_to_native` (lines 123–132). -/
def plainMessage (msg : Value) (role : String) : Value :=
  let mappedRole := if role == "assistant" then "assistant" else "user"
  .json [("role", .string mappedRole), ("content", (msg.get "content").getD .null)]

/-- One message of `convert_messages_to_native` (lines 70–133). -/
def convertMessage (J : SerdeJson) (msg : Value) : Value :=
  let role := (role msg).getD "user"
  if role == "tool" then
    let toolUseId := ((msg.get "tool_call_id").bind Value.asStr).getD ""
    let content := (msg.get "content").getD .null
    .json [("role", .string "user"),
      ("content", .array [.json [("type", .string "tool_result"),
        ("tool_use_id", .string toolUseId), ("content", content)]])]
  else if role == "assistant" then
    match (msg.get "tool_calls").bind Value.asArray with
    | some (tc :: toolCalls) =>
      .json [("role", .string "assistant"),
        ("content", .array (toolCallBlocks J msg (tc :: toolCalls)))]
    | _ => plainMessage msg role
  else plainMessage msg role

/-- `convert_messages_to_native` (lines 66–135). -/
def convertMessagesToNative (J : SerdeJson) (messages : List Value) : List Value :=
  (messages.filter fun msg => role msg != some "system").map (convertMessage J)

/-- `convert_tools_to_native` (lines 140–152). -/
def convertToolsToNative (tools : List Value) : List Value :=
  tools.filterMap fun t => (t.get "function").map fun function =>
    .json [("name", (function.get "name").getD .null),
      ("description", (function.get "description").getD (.string "")),
      ("input_schema", (function.get "parameters").getD
        (.json [("type", .string "object"), ("properties", .json [])]))]

/-- `convert_tool_choice_to_native` (lines 160–179). -/
def convertToolChoiceToNative (toolChoice : Value) : Value :=
  match toolChoice with
  | .object _ =>
    match (toolChoice.get "function").bind fun f => f.get "name" with
    | some n => .json [("type", .string "tool"), ("name", n)]
    | none => .json [("type", .string "auto")]
  | _ => .json [("type", .string "auto")]

/-- `convert_stop_sequences` (lines 182–188). -/
def convertStopSequences : Value → Option (List Value)
  | .string s => some [.string s]
  | .array arr => some arr
  | _ => none

/-- `native.insert(key, value)` if there is a value. -/
def insertSome (key : String) (value : Option Value) (native : Entries) : Entries :=
  match value with
  | some v => Entries.insert key v native
  | none => native

/-- The `tools` and `tool_choice` entries (lines 297–310). -/
def insertTools (obj native : Entries) : Entries :=
  match (Entries.get obj "tools").bind Value.asArray with
  | some (t :: tools) =>
    let native :=
      Entries.insert "tools" (.array (convertToolsToNative (t :: tools))) native
    insertSome "tool_choice" ((Entries.get obj "tool_choice").map convertToolChoiceToNative) native
  | _ => native

/-- The native request built from the entries of the client's (lines 252–310). -/
def nativeEntries (J : SerdeJson) (obj : Entries) (messages : List Value) (model : Value) :
    Entries :=
  let native := Entries.insert "model" model []
  let native := insertSome "system" ((extractSystemMessage messages).map .string) native
  let native := Entries.insert "messages" (.array (convertMessagesToNative J messages)) native
  let maxTokens := ((Entries.get obj "max_tokens").bind Value.asU64).getD defaultMaxTokens
  let native := Entries.insert "max_tokens" (.number (.posInt maxTokens)) native
  let native := insertSome "temperature" (Entries.get obj "temperature") native
  let native := insertSome "stop_sequences"
    (((Entries.get obj "stop").bind convertStopSequences).map .array) native
  let native := insertSome "stream" (Entries.get obj "stream") native
  insertTools obj native

/-- `to_native` (lines 231–334). -/
def toNative (J : SerdeJson) (request : Value) : Except TranspilerError Value :=
  match request.asObject with
  | none => .error (.invalidFieldValue "request" "Expected JSON object")
  | some obj =>
    match (Entries.get obj "messages").bind Value.asArray with
    | none => .error (.missingField "messages")
    | some messages =>
      match Entries.get obj "model" with
      | none => .error (.missingField "model")
      | some model => .ok (.object (nativeEntries J obj messages model))

/-- `map_stop_reason` (lines 191–199). -/
def mapStopReason (stopReason : Option String) : String :=
  if stopReason == some "max_tokens" then "length"
  else if stopReason == some "tool_use" then "tool_calls"
  else "stop"

/-- The block's `type`, if it is a string. -/
def blockType (block : Value) : Option String := (block.get "type").bind Value.asStr

/-- `extract_tool_calls` (lines 206–227). -/
def extractToolCalls (J : SerdeJson) (contentBlocks : List Value) : Option (List Value) :=
  let calls := (contentBlocks.filter fun b => blockType b == some "tool_use").map fun b =>
    let arguments := (b.get "input").getD (.json [])
    Value.json [("id", (b.get "id").getD .null), ("type", .string "function"),
      ("function", .json [("name", (b.get "name").getD .null),
        ("arguments", .string (J.toString arguments))])]
  if calls.isEmpty then none else some calls

/-- `content_text` of `from_native` (lines 357–373). -/
def contentText (blocks : List Value) : String :=
  String.join (blocks.filterMap fun block =>
    if blockType block == some "text" then (block.get "text").bind Value.asStr else none)

/-- `from_native` (lines 336–429). The sum of the token counts is a `u64`. -/
def fromNative (J : SerdeJson) (response : Value) : Except TranspilerError Value :=
  match response.asObject with
  | none => .error (.invalidFieldValue "response" "Expected JSON object")
  | some obj =>
    let id := (Entries.get obj "id").getD (.string "chatcmpl-unknown")
    let model := (Entries.get obj "model").getD (.string "unknown")
    let blocks := (Entries.get obj "content").bind Value.asArray
    let finishReason := mapStopReason ((Entries.get obj "stop_reason").bind Value.asStr)
    let usage := (Entries.get obj "usage").getD
      (.json [("input_tokens", .number (.posInt 0)), ("output_tokens", .number (.posInt 0))])
    let inputTokens := ((usage.get "input_tokens").bind Value.asU64).getD 0
    let outputTokens := ((usage.get "output_tokens").bind Value.asU64).getD 0
    let message := Entries.ofList [("role", .string "assistant"),
      ("content", .string ((blocks.map contentText).getD ""))]
    let message := insertSome "tool_calls"
      ((blocks.bind (extractToolCalls J)).map .array) message
    .ok (.json [("id", id), ("object", .string "chat.completion"),
      ("created", .number (.posInt 0)), ("model", model),
      ("choices", .array [.json [("index", .number (.posInt 0)), ("message", .object message),
        ("finish_reason", .string finishReason)]]),
      ("usage", .json [("prompt_tokens", .number (.posInt inputTokens)),
        ("completion_tokens", .number (.posInt outputTokens)),
        ("total_tokens", .number (.posInt ((inputTokens + outputTokens) % 2 ^ 64)))])])

theorem get_insertSome_of_ne {key k : String} (h : key ≠ k) (v : Option Value)
    (native : Entries) : Entries.get (insertSome key v native) k = Entries.get native k := by
  cases v with
  | none => rfl
  | some v => exact Entries.get_insert_of_ne native v h

theorem get_insertTools (obj native : Entries) {k : String} (h : "tools" ≠ k)
    (h' : "tool_choice" ≠ k) : Entries.get (insertTools obj native) k = Entries.get native k := by
  unfold insertTools
  split
  · rw [get_insertSome_of_ne h', Entries.get_insert_of_ne _ _ h]
  · rfl

theorem get_nativeEntries_model (J : SerdeJson) (obj : Entries) (messages : List Value)
    (model : Value) : Entries.get (nativeEntries J obj messages model) "model" = some model := by
  unfold nativeEntries
  rw [get_insertTools _ _ (by decide) (by decide), get_insertSome_of_ne (by decide),
    get_insertSome_of_ne (by decide), get_insertSome_of_ne (by decide),
    Entries.get_insert_of_ne _ _ (by decide), Entries.get_insert_of_ne _ _ (by decide),
    get_insertSome_of_ne (by decide), Entries.get_insert_self]

/-- `stream` is copied. -/
theorem get_nativeEntries_stream (J : SerdeJson) (obj : Entries) (messages : List Value)
    (model : Value) :
    Entries.get (nativeEntries J obj messages model) "stream" = Entries.get obj "stream" := by
  unfold nativeEntries
  rw [get_insertTools _ _ (by decide) (by decide)]
  cases Entries.get obj "stream" with
  | some v => exact Entries.get_insert_self _ _ _
  | none =>
    rw [insertSome, get_insertSome_of_ne (by decide), get_insertSome_of_ne (by decide),
      Entries.get_insert_of_ne _ _ (by decide), Entries.get_insert_of_ne _ _ (by decide),
      get_insertSome_of_ne (by decide), Entries.get_insert_of_ne _ _ (by decide),
      Entries.get_nil]

/-- A request object with an array of messages and a model is translated. -/
theorem toNative_ok (J : SerdeJson) {obj : Entries} {messages : List Value} {model : Value}
    (hmessages : Entries.get obj "messages" = some (.array messages))
    (hmodel : Entries.get obj "model" = some model) :
    toNative J (.object obj) = .ok (.object (nativeEntries J obj messages model)) := by
  simp [toNative, Value.asObject, Value.asArray, hmessages, hmodel]

end Anthropic

/-! ## Claude on Vertex AI -/

namespace VertexAnthropic

/-- `VERTEX_ANTHROPIC_VERSION` (line 34). -/
def vertexAnthropicVersion : String := "vertex-2023-10-16"

/-- `to_native` (lines 40–59). -/
def toNative (J : SerdeJson) (request : Value) : Except TranspilerError Value :=
  match Anthropic.toNative J request with
  | .error e => .error e
  | .ok native =>
    match native.asObject with
    | none => .error (.invalidFieldValue "request" "Expected JSON object")
    | some obj => .ok (.object (Entries.insert "anthropic_version"
        (.string vertexAnthropicVersion) (Entries.remove obj "model")))

/-- `from_native` (lines 61–63). -/
def fromNative (J : SerdeJson) (response : Value) : Except TranspilerError Value :=
  Anthropic.fromNative J response

/-- The request for Vertex names no model. -/
theorem toNative_ok (J : SerdeJson) {obj : Entries} {messages : List Value} {model : Value}
    (hmessages : Entries.get obj "messages" = some (.array messages))
    (hmodel : Entries.get obj "model" = some model) :
    ∃ native, toNative J (.object obj) = .ok native ∧ native.get "model" = none := by
  rw [toNative, Anthropic.toNative_ok J hmessages hmodel]
  refine ⟨_, rfl, ?_⟩
  rw [Value.get_object, Entries.get_insert_of_ne _ _ (by decide), Entries.get_remove, if_pos rfl]

end VertexAnthropic

end Melis.Transpiler
