import Melis.Client.Sse
import Melis.Common.Lines
import Melis.Common.Utf8
import Melis.Transpiler.Anthropic

/-!
# SSE streams (`streaming.rs`)

`transform_sse_stream` on the items that the provider's stream yields. The client
gets one event for each translated chunk and `[DONE]` at the end; what is skipped
is only logged, and the log is not modelled. Printing a `serde_json::Value` does
not fail.

* `transformSseStream_emits`: items with one event each, then `[DONE]`.
-/

namespace Melis.Streaming

open Transpiler Client

/-- `StreamError` (lines 24–32). -/
inductive StreamError where
  | connection (message : String)
  | invalidResponse (message : String)
deriving DecidableEq

/-- What one line of a chunk leads to. -/
inductive LineResult where
  | skip
  | event (data : String)
  | done
deriving DecidableEq

/-- The line without its `data:` prefix (lines 77–84). -/
def jsonStr (line : String) : String :=
  match Text.stripPrefix line "data: " with
  | some stripped => Text.trim stripped
  | none =>
    match Text.stripPrefix line "data:" with
    | some stripped => Text.trim stripped
    | none => line

section Transform

variable (J : SerdeJson) (translateChunk : Value → Except TranspilerError Value)

/-- The body of the loop over the lines (lines 68–135). -/
def processLine (line : String) : LineResult :=
  let line := Text.trim line
  if Text.isEmpty line || Text.startsWith line ":" then .skip
  else
    let jsonStr := jsonStr line
    if jsonStr == "[DONE]" then .done
    else if Text.isEmpty jsonStr then .skip
    else
      match J.fromStr jsonStr with
      | none => .skip
      | some parsed =>
        match translateChunk parsed with
        | .error _ => .skip
        | .ok translated => .event (J.toString translated)

/-- The events of some lines, and whether the stream ends with them (lines 67–136). -/
def processLines : List String → List String × Bool
  | [] => ([], false)
  | line :: lines =>
    match processLine J translateChunk line with
    | .skip => processLines lines
    | .event data => (data :: (processLines lines).1, (processLines lines).2)
    | .done => (["[DONE]"], true)

/-- `transform_sse_stream` (lines 51–152): the data of the events. -/
def transformSseStream : List (Except StreamError (List UInt8)) → List String
  | [] => ["[DONE]"]
  | .ok bytes :: items =>
    let (events, done) := processLines J translateChunk (Text.lines (fromUtf8Lossy bytes))
    if done then events else events ++ transformSseStream items
  | .error _ :: _ => ["[DONE]"]

end Transform

/-- The provider's stream as the handler passes it on (`router.rs` lines 561–563). -/
def providerStream (items : List Item) : List (Except StreamError (List UInt8)) :=
  items.map fun r => r.mapError fun e => .connection e.display

section Items

variable {J : SerdeJson} {translateChunk : Value → Except TranspilerError Value}

/-- One line of the bytes is translated to `data`, the others are skipped. -/
def Emits (J : SerdeJson) (translateChunk : Value → Except TranspilerError Value)
    (bytes : List UInt8) (data : String) : Prop :=
  processLines J translateChunk (Text.lines (fromUtf8Lossy bytes)) = ([data], false)

/-- Items with one event each, then the end of the stream. -/
theorem transformSseStream_emits {frames : List (List UInt8)} {datas : List String}
    (h : List.Forall₂ (Emits J translateChunk) frames datas) :
    transformSseStream J translateChunk (frames.map .ok) = datas ++ ["[DONE]"] := by
  induction h with
  | nil => rfl
  | cons hemits _ ih =>
    rw [List.map_cons, transformSseStream, hemits]
    show [_] ++ transformSseStream J translateChunk _ = _
    rw [ih]
    rfl

end Items

end Melis.Streaming
