import Melis.Transpiler.Chunk

/-!
# Transpilers by provider type (`transpiler/mod.rs`, `transpiler/vertex.rs`)

The transpiler for Gemini on Vertex AI, and the factory that picks a transpiler by
the provider's type. Dropped fields and unknown names are only logged, and the log
is not modelled.

* `Vertex.toNative_isOk_iff`, `Vertex.translateChunk_isOk_iff`: what the Vertex
  transpiler translates.
* `getTranspiler_of_ne`: the types served by the passthrough.
-/

namespace Melis.Transpiler

/-! ## Gemini on Vertex AI -/

namespace Vertex

/-- `map_role_to_vertex` (lines 26–37). -/
def mapRoleToVertex (role : String) : String := if role == "assistant" then "model" else "user"

/-- `map_role_to_openai` (lines 40–52). -/
def mapRoleToOpenai (role : String) : String := if role == "user" then "user" else "assistant"

/-- `map_finish_reason` (lines 55–69). -/
def mapFinishReason (reason : String) : String :=
  if reason == "MAX_TOKENS" then "length"
  else if reason == "SAFETY" ∨ reason == "RECITATION" then "content_filter"
  else "stop"

/-- `role` and `content` of a message (lines 119–120). -/
def messageParts (msg : Value) : String × String :=
  (((msg.get "role").bind Value.asStr).getD "user",
    ((msg.get "content").bind Value.asStr).getD "")

/-- `contents` (lines 115–132). -/
def contents (messages : List Value) : List Value :=
  ((messages.map messageParts).filter fun m => m.1 != "system").map fun m =>
    .json [("role", .string (mapRoleToVertex m.1)),
      ("parts", .array [.json [("text", .string m.2)]])]

/-- `system_parts` (lines 116–132). -/
def systemParts (messages : List Value) : List Value :=
  ((messages.map messageParts).filter fun m => m.1 == "system").map fun m =>
    .json [("text", .string m.2)]

/-- `generation_config` (lines 142–158). -/
def generationConfig (request : Value) : Entries :=
  let config := Anthropic.insertSome "temperature" (request.get "temperature") []
  let config := Anthropic.insertSome "maxOutputTokens" (request.get "max_tokens") config
  let config := Anthropic.insertSome "stopSequences" (request.get "stop") config
  Anthropic.insertSome "topP" (request.get "top_p") config

/-- `to_native` (lines 107–191). -/
def toNative (request : Value) : Except TranspilerError Value :=
  match (request.get "messages").bind Value.asArray with
  | none => .error (.missingField "messages")
  | some messages =>
    let native := Entries.ofList [("contents", .array (contents messages))]
    let native :=
      if (systemParts messages).isEmpty then native
      else Entries.insert "systemInstruction" (.json [("parts", .array (systemParts messages))])
        native
    .ok (.object (if (generationConfig request).isEmpty then native
      else Entries.insert "generationConfig" (.object (generationConfig request)) native))

/-- `text` of a candidate: that of the first part which has one (lines 240–252
    and 345–356). -/
def candidateText (candidate : Value) : Option String :=
  (((candidate.get "content").bind fun c => c.get "parts").bind Value.asArray).bind fun parts =>
    (parts.filterMap fun p => (p.get "text").bind Value.asStr).head?

/-- `role` of a candidate (lines 256–258 and 359–361). -/
def candidateRole (candidate : Value) : Option String :=
  ((candidate.get "content").bind fun c => c.get "role").bind Value.asStr

/-- `finish_reason` of a candidate (lines 263–266 and 365–368). -/
def candidateFinishReason (candidate : Value) : Value :=
  ((((candidate.get "finishReason").bind Value.asStr).map mapFinishReason).map
    Value.string).getD .null

/-- `candidates` (lines 230–235 and 335–340). -/
def candidates (response : Value) : Except TranspilerError (List Value) :=
  match (response.get "candidates").bind Value.asArray with
  | none => .error (.missingField "candidates")
  | some candidates => .ok candidates

/-- `model` (lines 288–291 and 387–390). -/
def modelVersion (response : Value) : String :=
  ((response.get "modelVersion").bind Value.asStr).getD "gemini-pro"

/-- The choice for the candidate at `index` (lines 268–275). -/
def choice (candidate : Value) (index : ℕ) : Value :=
  .json [("index", .number (.posInt index)),
    ("message", .json [
      ("role", .string (mapRoleToOpenai ((candidateRole candidate).getD "model"))),
      ("content", .string ((candidateText candidate).getD ""))]),
    ("finish_reason", candidateFinishReason candidate)]

/-- `usage` (lines 279–285). -/
def usage (response : Value) : Option Value :=
  (response.get "usageMetadata").map fun metadata =>
    let count (key : String) : Value :=
      .number (.posInt (((metadata.get key).bind Value.asU64).getD 0))
    .json [("prompt_tokens", count "promptTokenCount"),
      ("completion_tokens", count "candidatesTokenCount"),
      ("total_tokens", count "totalTokenCount")]

/-- `from_native` (lines 229–306). -/
def fromNative (response : Value) : Except TranspilerError Value :=
  match candidates response with
  | .error e => .error e
  | .ok candidates =>
    let result := Entries.ofList [("id", .string "chatcmpl-vertex"),
      ("object", .string "chat.completion"), ("created", .number (.posInt 0)),
      ("model", .string (modelVersion response)),
      ("choices", .array (candidates.zipIdx.map fun c => choice c.1 c.2))]
    .ok (.object (Anthropic.insertSome "usage" (usage response) result))

/-- The choice of a chunk for the candidate at `index` (lines 371–383). -/
def chunkChoice (candidate : Value) (index : ℕ) : Value :=
  let delta := Anthropic.insertSome "role"
    ((candidateRole candidate).map fun r => .string (mapRoleToOpenai r)) []
  let delta := Anthropic.insertSome "content" ((candidateText candidate).map .string) delta
  .json [("index", .number (.posInt index)), ("delta", .object delta),
    ("finish_reason", candidateFinishReason candidate)]

/-- `translate_chunk` (lines 334–399). -/
def translateChunk (chunk : Value) : Except TranspilerError Value :=
  match candidates chunk with
  | .error e => .error e
  | .ok candidates =>
    .ok (.json [("id", .string "chatcmpl-vertex"), ("object", .string "chat.completion.chunk"),
      ("created", .number (.posInt 0)), ("model", .string (modelVersion chunk)),
      ("choices", .array (candidates.zipIdx.map fun c => chunkChoice c.1 c.2))])

/-- A request is translated if it has messages. -/
theorem toNative_isOk_iff {request : Value} :
    (toNative request).toOption.isSome = true ↔
      ∃ messages, request.get "messages" = some (.array messages) := by
  rw [toNative]
  cases hmessages : request.get "messages" with
  | none => simp [Except.toOption]
  | some v => cases v <;> simp [Value.asArray, Except.toOption]

/-- A chunk is translated if it has candidates. -/
theorem translateChunk_isOk_iff {chunk : Value} :
    (translateChunk chunk).toOption.isSome = true ↔
      ∃ candidates, chunk.get "candidates" = some (.array candidates) := by
  rw [translateChunk, candidates]
  cases hcandidates : chunk.get "candidates" with
  | none => simp [Except.toOption]
  | some v => cases v <;> simp [Value.asArray, Except.toOption]

end Vertex

/-! ## The factory -/

/-- `PayloadTranspiler` (lines 48–57). -/
structure PayloadTranspiler where
  toNative : Value → Except TranspilerError Value
  fromNative : Value → Except TranspilerError Value
  translateChunk : Value → Except TranspilerError Value

/-- `OpenAiTranspiler` (`transpiler/openai.rs` lines 15–29). -/
def openAi : PayloadTranspiler where
  toNative := .ok
  fromNative := .ok
  translateChunk := .ok

section Factory

variable (J : SerdeJson)

/-- `AnthropicTranspiler`. -/
def anthropic : PayloadTranspiler where
  toNative := Anthropic.toNative J
  fromNative := Anthropic.fromNative J
  translateChunk := Anthropic.translateChunk

/-- `VertexTranspiler`. -/
def vertex : PayloadTranspiler where
  toNative := Vertex.toNative
  fromNative := Vertex.fromNative
  translateChunk := Vertex.translateChunk

/-- `VertexAnthropicTranspiler`: `translate_chunk` is Anthropic's
    (`transpiler/vertex_anthropic.rs` lines 65–67). -/
def vertexAnthropic : PayloadTranspiler where
  toNative := VertexAnthropic.toNative J
  fromNative := VertexAnthropic.fromNative J
  translateChunk := Anthropic.translateChunk

/-- `get_transpiler` (lines 68–80). -/
def getTranspiler (providerType : String) : PayloadTranspiler :=
  if providerType == "anthropic" then anthropic J
  else if providerType == "google_vertex_ai" then vertex
  else if providerType == "vertex_anthropic" then vertexAnthropic J
  else openAi

/-- Every other type is taken for OpenAI's. -/
theorem getTranspiler_of_ne {providerType : String} (hanthropic : providerType ≠ "anthropic")
    (hvertex : providerType ≠ "google_vertex_ai")
    (hvertexAnthropic : providerType ≠ "vertex_anthropic") :
    getTranspiler J providerType = openAi := by
  simp [getTranspiler, hanthropic, hvertex, hvertexAnthropic]

end Factory

end Melis.Transpiler
