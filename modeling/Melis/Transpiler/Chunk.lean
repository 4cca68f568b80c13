import Melis.Transpiler.Message

/-!
# Streamed messages (`transpiler/anthropic.rs`)

Anthropic streams a message as a sequence of events; `translate_chunk` makes one
OpenAI chunk of each. An event's value may have further fields.

* `Message.Streams`: the sequences of events that stream a message.
* `text_streams`: the events together carry the text of the message.
* `two_finish_reasons`: the chunks of a stream carry two finish reasons.
-/

namespace Melis.Transpiler.Anthropic

/-- The chunk that every case of `translate_chunk` builds. -/
def openAiChunk (model : String) (delta finishReason : Value) : Value :=
  .json [("id", .string "chatcmpl-stream"), ("object", .string "chat.completion.chunk"),
    ("created", .number (.posInt 0)), ("model", .string model),
    ("choices", .array [.json [("index", .number (.posInt 0)), ("delta", delta),
      ("finish_reason", finishReason)]])]

/-- `translate_chunk` (lines 431–539). -/
def translateChunk (chunk : Value) : Except TranspilerError Value :=
  match chunk.asObject with
  | none => .error (.invalidFieldValue "chunk" "Expected JSON object")
  | some obj =>
    let chunkType := ((Entries.get obj "type").bind Value.asStr).getD ""
    let delta := Entries.get obj "delta"
    if chunkType == "content_block_delta" then
      let text := ((delta.bind fun d => d.get "text").bind Value.asStr).getD ""
      .ok (openAiChunk "" (.json [("content", .string text)]) .null)
    else if chunkType == "message_start" then
      let message := Entries.get obj "message"
      let model := ((message.bind fun m => m.get "model").bind Value.asStr).getD ""
      .ok (openAiChunk model (.json [("role", .string "assistant")]) .null)
    else if chunkType == "message_delta" then
      let stopReason := (delta.bind fun d => d.get "stop_reason").bind Value.asStr
      .ok (openAiChunk "" (.json []) (.string (mapStopReason stopReason)))
    else if chunkType == "message_stop" then
      .ok (openAiChunk "" (.json []) (.string "stop"))
    else .ok (openAiChunk "" (.json []) .null)

/-! ## Events -/

/-- The events of a streamed message. A delta other than a text has no `text`. -/
inductive StreamEvent where
  | messageStart
  | contentBlockStart
  | textDelta (text : String)
  | otherDelta
  | contentBlockStop
  | messageDelta (stopReason : Option String)
  | messageStop
  | ping
deriving DecidableEq

namespace StreamEvent

/-- The event's `type`. -/
def type : StreamEvent → String
  | messageStart => "message_start"
  | contentBlockStart => "content_block_start"
  | textDelta _ => "content_block_delta"
  | otherDelta => "content_block_delta"
  | contentBlockStop => "content_block_stop"
  | messageDelta _ => "message_delta"
  | messageStop => "message_stop"
  | ping => "ping"

/-- The fields of the event that its `type` asks for. -/
def HasFields : StreamEvent → Value → Prop
  | textDelta t, v => ((v.get "delta").bind fun d => d.get "text") = some (.string t)
  | otherDelta, v => ((v.get "delta").bind fun d => d.get "text") = none
  | messageDelta stopReason, v =>
    ((v.get "delta").bind fun d => d.get "stop_reason").bind Value.asStr = stopReason
  | _, _ => True

/-- The value is the event in JSON. -/
def IsValue (e : StreamEvent) (v : Value) : Prop :=
  v.get "type" = some (.string e.type) ∧ e.HasFields v

/-- The text that the event adds to the message. -/
def text : StreamEvent → String
  | textDelta t => t
  | _ => ""

/-- The finish reason that the event is translated to. -/
def finishReason : StreamEvent → Option String
  | messageDelta stopReason => some (mapStopReason stopReason)
  | messageStop => some "stop"
  | _ => none

end StreamEvent

/-- The events of a content block: a text comes in any pieces, the input of a tool
    and any other block as any number of other deltas. -/
def ContentBlock.Streams : ContentBlock → List StreamEvent → Prop
  | .text t, events => ∃ pieces : List String, String.join pieces = t ∧
      events = .contentBlockStart :: pieces.map .textDelta ++ [.contentBlockStop]
  | .toolUse _ _ _, events | .other, events => ∃ n,
      events = .contentBlockStart :: List.replicate n .otherDelta ++ [.contentBlockStop]

/-- The events that stream a message: its start, the blocks in order, the stop
    reason and its end, with pings anywhere. -/
def Message.Streams (m : Message) (events : List StreamEvent) : Prop :=
  ∃ parts, List.Forall₂ ContentBlock.Streams m.blocks parts ∧
    events.filter (· ≠ .ping) =
      .messageStart :: parts.flatten ++ [.messageDelta m.stopReason, .messageStop]

/-! ## Chunks -/

/-- `choices[0].delta.content`, or nothing. -/
def deltaContent (chunk : Value) : String :=
  let delta := (firstChoice chunk).bind fun choice => choice.get "delta"
  ((delta.bind fun delta => delta.get "content").bind Value.asStr).getD ""

theorem firstChoice_openAiChunk (model : String) (delta reason : Value) :
    firstChoice (openAiChunk model delta reason) =
      some (.json
        [("index", .number (.posInt 0)), ("delta", delta), ("finish_reason", reason)]) := by
  simp [firstChoice, openAiChunk, Value.get_json, Entries.get_cons, Value.asArray]

theorem deltaContent_openAiChunk (model : String) (delta reason : Value) :
    deltaContent (openAiChunk model delta reason) =
      ((delta.get "content").bind Value.asStr).getD "" := by
  simp [deltaContent, firstChoice_openAiChunk, Value.get_json, Entries.get_cons]

theorem finishReason_openAiChunk (model : String) (delta reason : Value) :
    finishReason (openAiChunk model delta reason) =
      match reason with
      | .null => none
      | reason => some reason := by
  rw [finishReason, firstChoice_openAiChunk]
  cases reason <;> simp [Value.get_json, Entries.get_cons]

/-- The chunk has the text and the finish reason of the event. -/
structure IsChunk (e : StreamEvent) (chunk : Value) : Prop where
  text : deltaContent chunk = e.text
  reason : finishReason chunk = e.finishReason.map Value.string

theorem isChunk_openAiChunk {e : StreamEvent} {model : String} {delta reason : Value}
    (htext : ((delta.get "content").bind Value.asStr).getD "" = e.text)
    (hreason : (match reason with
      | .null => none
      | reason => some reason) = e.finishReason.map Value.string) :
    IsChunk e (openAiChunk model delta reason) :=
  ⟨(deltaContent_openAiChunk model delta reason).trans htext,
    (finishReason_openAiChunk model delta reason).trans hreason⟩

/-- Every event is translated. -/
theorem translateChunk_event {e : StreamEvent} {v : Value} (h : e.IsValue v) :
    ∃ chunk, translateChunk v = .ok chunk ∧ IsChunk e chunk := by
  obtain ⟨htype, hfields⟩ := h
  match v with
  | .object obj =>
    rw [Value.get_object] at htype
    simp only [translateChunk, Value.asObject, htype, Option.bind_some, Value.asStr,
      Option.getD_some]
    cases e with
    | messageStart => exact ⟨_, rfl, isChunk_openAiChunk rfl rfl⟩
    | contentBlockStart => exact ⟨_, rfl, isChunk_openAiChunk rfl rfl⟩
    | textDelta t =>
      refine ⟨_, rfl, isChunk_openAiChunk ?_ rfl⟩
      rw [StreamEvent.HasFields, Value.get_object] at hfields
      simp [hfields, Value.get_json, Entries.get_cons, Value.asStr, StreamEvent.text]
    | otherDelta =>
      refine ⟨_, rfl, isChunk_openAiChunk ?_ rfl⟩
      rw [StreamEvent.HasFields, Value.get_object] at hfields
      simp [hfields, Value.get_json, Entries.get_cons, Value.asStr, StreamEvent.text]
    | contentBlockStop => exact ⟨_, rfl, isChunk_openAiChunk rfl rfl⟩
    | messageDelta stopReason =>
      rw [StreamEvent.HasFields, Value.get_object] at hfields
      exact ⟨_, rfl, isChunk_openAiChunk rfl
        (congrArg (fun reason => some (Value.string (mapStopReason reason))) hfields)⟩
    | messageStop => exact ⟨_, rfl, isChunk_openAiChunk rfl rfl⟩
    | ping => exact ⟨_, rfl, isChunk_openAiChunk rfl rfl⟩

/-- A sequence of events is translated one by one. -/
theorem mapM_translateChunk {events : List StreamEvent} {values : List Value}
    (h : List.Forall₂ StreamEvent.IsValue events values) :
    ∃ chunks, values.mapM translateChunk = .ok chunks ∧ List.Forall₂ IsChunk events chunks := by
  induction h with
  | nil => exact ⟨[], rfl, .nil⟩
  | cons hv _ ih =>
    obtain ⟨chunk, hchunk, his⟩ := translateChunk_event hv
    obtain ⟨chunks, hchunks, hall⟩ := ih
    refine ⟨chunk :: chunks, ?_, .cons his hall⟩
    rw [List.mapM_cons, hchunk, hchunks]
    rfl

/-- The chunk of each event. -/
theorem forall₂_of_mapM {values chunks : List Value} (h : values.mapM translateChunk = .ok chunks) :
    List.Forall₂ (fun v chunk => translateChunk v = .ok chunk) values chunks := by
  induction values generalizing chunks with
  | nil =>
    cases h
    exact .nil
  | cons v values ih =>
    rw [List.mapM_cons] at h
    cases hv : translateChunk v with
    | error e =>
      rw [hv] at h
      cases h
    | ok chunk =>
      cases hvs : values.mapM translateChunk with
      | error e =>
        rw [hv, hvs] at h
        cases h
      | ok chunks' =>
        rw [hv, hvs] at h
        cases h
        exact .cons hv (ih hvs)

/-- The non-null finish reasons of the chunks are those of the events. -/
theorem finishReasons_chunks {events : List StreamEvent} {chunks : List Value}
    (h : List.Forall₂ IsChunk events chunks) :
    chunks.filterMap finishReason = (events.filterMap StreamEvent.finishReason).map .string := by
  induction h with
  | nil => rfl
  | @cons e chunk events chunks hchunk _ ih =>
    rw [List.filterMap_cons, List.filterMap_cons, hchunk.reason, ih]
    cases e.finishReason <;> rfl

/-- The chunks carry the text of the events. -/
theorem deltaContents_chunks {events : List StreamEvent} {chunks : List Value}
    (h : List.Forall₂ IsChunk events chunks) :
    chunks.map deltaContent = events.map StreamEvent.text := by
  induction h with
  | nil => rfl
  | cons hchunk _ ih => rw [List.map_cons, List.map_cons, hchunk.text, ih]

/-! ## The events of a message -/

theorem finishReasons_part {b : ContentBlock} {events : List StreamEvent} (h : b.Streams events) :
    events.filterMap StreamEvent.finishReason = [] := by
  rw [List.filterMap_eq_nil_iff]
  intro e he
  match b with
  | .text t =>
    obtain ⟨pieces, -, rfl⟩ := h
    simp only [List.cons_append, List.mem_cons, List.mem_append, List.mem_map, List.not_mem_nil,
      or_false] at he
    rcases he with rfl | ⟨t, -, rfl⟩ | rfl
    all_goals rfl
  | .toolUse _ _ _ | .other =>
    obtain ⟨n, rfl⟩ := h
    simp only [List.cons_append, List.mem_cons, List.mem_append, List.mem_replicate,
      List.not_mem_nil, or_false] at he
    rcases he with rfl | ⟨-, rfl⟩ | rfl
    all_goals rfl

theorem join_eq_empty {texts : List String} (h : ∀ t ∈ texts, t = "") : String.join texts = "" := by
  induction texts with
  | nil => rfl
  | cons t texts ih =>
    rw [String.join_cons, h t List.mem_cons_self, ih fun t ht => h t (List.mem_cons_of_mem _ ht)]
    rfl

theorem text_part {b : ContentBlock} {events : List StreamEvent} (h : b.Streams events) :
    String.join (events.map StreamEvent.text) = b.plainText := by
  match b with
  | .text t =>
    obtain ⟨pieces, rfl, rfl⟩ := h
    have hpieces : (pieces.map StreamEvent.textDelta).map StreamEvent.text = pieces := by
      rw [List.map_map]
      exact List.map_id pieces
    rw [List.map_append, List.map_cons, hpieces, String.join_append, String.join_cons]
    simp [StreamEvent.text, ContentBlock.plainText]
  | .toolUse _ _ _ | .other =>
    obtain ⟨n, rfl⟩ := h
    apply join_eq_empty
    intro text ht
    simp only [List.cons_append, List.map_cons, List.map_append, List.map_replicate, List.map_nil,
      List.mem_cons, List.mem_append, List.mem_replicate, List.not_mem_nil, or_false] at ht
    rcases ht with rfl | ⟨-, rfl⟩ | rfl
    all_goals rfl

section Streams

variable {m : Message} {events : List StreamEvent}

theorem finishReasons_filter (events : List StreamEvent) :
    (events.filter (· ≠ .ping)).filterMap StreamEvent.finishReason =
      events.filterMap StreamEvent.finishReason := by
  rw [List.filterMap_filter]
  congr 1
  funext e
  cases e <;> rfl

theorem text_filter (events : List StreamEvent) :
    String.join ((events.filter (· ≠ .ping)).map StreamEvent.text) =
      String.join (events.map StreamEvent.text) := by
  induction events with
  | nil => rfl
  | cons e events ih =>
    by_cases he : e = .ping
    · subst he
      rw [List.filter_cons_of_neg (by simp), ih, List.map_cons, String.join_cons]
      exact String.empty_append.symm
    · rw [List.filter_cons_of_pos (by simpa using he), List.map_cons, List.map_cons,
        String.join_cons, String.join_cons, ih]

theorem finishReasons_parts {blocks : List ContentBlock} {parts : List (List StreamEvent)}
    (h : List.Forall₂ ContentBlock.Streams blocks parts) :
    parts.flatten.filterMap StreamEvent.finishReason = [] := by
  induction h with
  | nil => rfl
  | cons hpart _ ih =>
    rw [List.flatten_cons, List.filterMap_append, finishReasons_part hpart, ih]
    rfl

theorem text_parts {blocks : List ContentBlock} {parts : List (List StreamEvent)}
    (h : List.Forall₂ ContentBlock.Streams blocks parts) :
    String.join (parts.flatten.map StreamEvent.text) =
      String.join (blocks.map ContentBlock.plainText) := by
  induction h with
  | nil => rfl
  | cons hpart _ ih =>
    rw [List.flatten_cons, List.map_append, String.join_append, text_part hpart, ih, List.map_cons,
      String.join_cons]

/-- A stream of a message has two finish reasons: the message's own and the one of
    `message_stop`. -/
theorem finishReasons_streams (h : m.Streams events) :
    events.filterMap StreamEvent.finishReason = [mapStopReason m.stopReason, "stop"] := by
  obtain ⟨parts, hparts, hfilter⟩ := h
  rw [← finishReasons_filter, hfilter, List.filterMap_append, List.filterMap_cons,
    finishReasons_parts hparts]
  rfl

/-- The events of a stream carry the text of the message. -/
theorem text_streams (h : m.Streams events) :
    String.join (events.map StreamEvent.text) = m.plainText := by
  obtain ⟨parts, hparts, hfilter⟩ := h
  rw [← text_filter, hfilter, List.map_append, List.map_cons, String.join_append, String.join_cons,
    text_parts hparts]
  simp [StreamEvent.text, Message.plainText]

end Streams

/-! ## Termination -/

/-- Exactly one of the chunks has a finish reason, the one of the response. -/
def OneFinishReason (chunks : List Value) (response : Value) : Prop :=
  ∃ reason, finishReason response = some reason ∧ chunks.filterMap finishReason = [reason]

/-- **Termination.** The chunks of every streamed message carry two finish reasons:
    the one of the complete message, then `stop`. So there is never exactly one. -/
theorem two_finish_reasons (J : SerdeJson) (m : Message) {events : List StreamEvent}
    {values : List Value} (hevents : m.Streams events)
    (hvalues : List.Forall₂ StreamEvent.IsValue events values) :
    ∃ chunks response, values.mapM translateChunk = .ok chunks ∧
      fromNative J m.value = .ok response ∧
      finishReason response = some (.string (mapStopReason m.stopReason)) ∧
      chunks.filterMap finishReason = [.string (mapStopReason m.stopReason), .string "stop"] ∧
      ¬ OneFinishReason chunks response := by
  obtain ⟨chunks, hchunks, hall⟩ := mapM_translateChunk hvalues
  obtain ⟨response, hresponse, -, hreason⟩ := fromNative_message J m
  have hreasons : chunks.filterMap finishReason =
      [.string (mapStopReason m.stopReason), .string "stop"] := by
    rw [finishReasons_chunks hall, finishReasons_streams hevents]
    rfl
  refine ⟨chunks, response, hchunks, hresponse, hreason, hreasons, ?_⟩
  rintro ⟨reason, -, hone⟩
  rw [hreasons] at hone
  simp at hone

/-- A message that is cut off after its first word. -/
def truncatedMessage : Message where
  value := .json [("content", .array [.json [("type", .string "text"), ("text", .string "Hi")]]),
    ("stop_reason", .string "max_tokens")]
  blocks := [.text "Hi"]
  values := [.json [("type", .string "text"), ("text", .string "Hi")]]
  content := rfl
  isValue := .cons ⟨rfl, rfl⟩ .nil

/-- The events that stream it. -/
def truncatedEvents : List StreamEvent :=
  [.messageStart, .contentBlockStart, .textDelta "Hi", .contentBlockStop,
    .messageDelta (some "max_tokens"), .messageStop]

/-- Their values. -/
def truncatedValues : List Value :=
  [.json [("type", .string "message_start")], .json [("type", .string "content_block_start")],
    .json [("type", .string "content_block_delta"), ("delta", .json [("text", .string "Hi")])],
    .json [("type", .string "content_block_stop")],
    .json [("type", .string "message_delta"),
      ("delta", .json [("stop_reason", .string "max_tokens")])],
    .json [("type", .string "message_stop")]]

theorem truncatedMessage_streams : truncatedMessage.Streams truncatedEvents :=
  ⟨[[.contentBlockStart, .textDelta "Hi", .contentBlockStop]],
    .cons ⟨["Hi"], rfl, rfl⟩ .nil, by decide⟩

theorem truncatedValues_isValue :
    List.Forall₂ StreamEvent.IsValue truncatedEvents truncatedValues := by
  refine .cons ⟨rfl, ?_⟩ (.cons ⟨rfl, ?_⟩ (.cons ⟨rfl, rfl⟩ (.cons ⟨rfl, ?_⟩ (.cons ⟨rfl, rfl⟩
    (.cons ⟨rfl, ?_⟩ .nil)))))
  all_goals exact trivial

/-- The stream of the message that is cut off. -/
theorem two_finish_reasons_truncated :
    ∃ chunks response, truncatedValues.mapM translateChunk = .ok chunks ∧
      fromNative (.ofTable []) truncatedMessage.value = .ok response ∧
      finishReason response = some (.string "length") ∧
      chunks.filterMap finishReason = [.string "length", .string "stop"] ∧
      ¬ OneFinishReason chunks response :=
  two_finish_reasons (.ofTable []) truncatedMessage truncatedMessage_streams truncatedValues_isValue

/-- The stream of a message that is cut off says `length`, then `stop`. -/
theorem length_then_stop :
    truncatedMessage.Streams truncatedEvents ∧
      List.Forall₂ StreamEvent.IsValue truncatedEvents truncatedValues ∧
      ¬ ∃ chunks response, truncatedValues.mapM translateChunk = .ok chunks ∧
        fromNative (.ofTable []) truncatedMessage.value = .ok response ∧
        OneFinishReason chunks response := by
  refine ⟨truncatedMessage_streams, truncatedValues_isValue, ?_⟩
  rintro ⟨chunks, response, hchunks, -, reason, -, hone⟩
  have hreasons : (truncatedValues.mapM translateChunk).toOption.map (·.filterMap finishReason) =
      some [.string "length", .string "stop"] := rfl
  rw [hchunks] at hreasons
  have hboth : chunks.filterMap finishReason = [.string "length", .string "stop"] :=
    Option.some.inj hreasons
  rw [hone] at hboth
  simp at hboth

end Melis.Transpiler.Anthropic
