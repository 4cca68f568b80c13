import Melis.Common.Error
import Melis.Common.Json
import Melis.Compactor.Model
import Melis.RouteConfig.Model

/-!
# The chat payload (`router.rs`)

What `chat_completions_handler` does with the client's JSON before it selects a
provider: validation, the model override and the context compaction.
-/

namespace Melis.Router

open Compactor

/-- The check of one field of a message (lines 186–203). -/
def nonEmptyString : Option Value → Bool
  | some (.string s) => !Text.isEmpty s
  | _ => false

/-- The checks of the messages (lines 185–204), from index `i` on. -/
def validateMessages : ℕ → List Value → Except GatewayError Unit
  | _, [] => .ok ()
  | i, msg :: msgs =>
    if !nonEmptyString (msg.get "role") then
      .error (.badRequest s!"Message at index {i} must have a non-empty 'role' string field.")
    else if !nonEmptyString (msg.get "content") then
      .error (.badRequest s!"Message at index {i} must have a non-empty 'content' string field.")
    else validateMessages (i + 1) msgs

/-- `validate_chat_payload` (lines 153–207). -/
def validateChatPayload (payload : Value) : Except GatewayError Unit :=
  match payload.get "model" with
  | some (.string s) =>
    if Text.isEmpty s then .error (.badRequest "Field 'model' must not be empty.")
    else
      match payload.get "messages" with
      | some (.array []) =>
        .error (.badRequest "Field 'messages' must contain at least one message.")
      | some (.array (m :: ms)) => validateMessages 0 (m :: ms)
      | _ =>
        .error (.badRequest "Field 'messages' is required and must be a non-empty array.")
  | _ => .error (.badRequest "Field 'model' is required and must be a non-empty string.")

/-- `is_streaming_request` (lines 214–229). `accept` is the `Accept` header, if
    there is one and it is text. -/
def isStreamingRequest (accept : Option String) (payload : Value) : Bool :=
  let acceptHeaderStreaming :=
    (accept.map fun v => Text.contains v "text/event-stream").getD false
  let payloadStreaming := ((payload.get "stream").bind Value.asBool).getD false
  acceptHeaderStreaming || payloadStreaming

/-- `model_from_payload` (line 263). -/
def modelFromPayload (payload : Value) : String := ((payload.get "model").bind Value.asStr).getD ""

/-- The model override (lines 279–282). -/
def overrideModel (payload : Value) (effectiveModel : String) : Value :=
  match payload with
  | .object obj => .object (Entries.insert "model" (.string effectiveModel) obj)
  | v => v

/-- The projection of one message (lines 297–304). -/
def toCompactMessage (m : Value) : Option CompactMessage := do
  let role ← (m.get "role").bind Value.asStr
  let content ← (m.get "content").bind Value.asStr
  return { role, content }

/-- The message rebuilt from its projection (line 319). -/
def ofCompactMessage (m : CompactMessage) : Value :=
  .json [("role", .string m.role), ("content", .string m.content)]

/-- The compactor the strategy selects, run (lines 307–313). -/
def runCompactor (U : Unicode) (config : CompactorConfig) (messages : List CompactMessage) :
    CompactionResult :=
  if config.strategy == "semantic_guarded_trimming" then
    SemanticGuardedCompactor.compact .nearest U messages config
  else SimpleCompactor.compact U messages config

/-- The payload's `messages`, if it is an array. -/
def messagesOf (payload : Value) : Option (List Value) :=
  (payload.get "messages").bind Value.asArray

/-- Context compaction (lines 294–356), without the metrics. -/
def compactPayload (U : Unicode) (config : CompactorConfig) (payload : Value) : Value :=
  match messagesOf payload with
  | some messagesArr =>
    let result := runCompactor U config (messagesArr.filterMap toCompactMessage)
    if result.wasCompressed then
      payload.set "messages" (.array (result.messages.map ofCompactMessage))
    else payload
  | none => payload

/-- The payload as it is forwarded, before it is translated for a provider. -/
def forwardPayload (U : Unicode) (resolved : ResolvedRoute) (payload : Value) : Value :=
  compactPayload U resolved.effectiveTokenConfig (overrideModel payload resolved.model)

end Melis.Router
