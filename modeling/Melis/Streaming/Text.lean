import Melis.Streaming.Model
import Melis.Transpiler.Chunk

/-!
# The text of a streamed message

The bytes of a stream of Anthropic, cut anywhere by the network, split into
events, translated and read by the client.

* `IsFrame`: the bytes of an event.
* `emits_frame`: an event is translated to one chunk.
* `streamed_text`: the client reads the text of the message.
-/

namespace Melis.Streaming

open Transpiler Transpiler.Anthropic Client

/-! ## The bytes of an event -/

/-- The first line of an event. -/
def eventLine (name : String) : String := "event:" ++ name

/-- The second line of an event. -/
def dataLine (data : String) : String := "data:" ++ data

/-- The text of an event: its two lines and an empty line. -/
def frameText (name data : String) : String := eventLine name ++ "\n" ++ dataLine data ++ "\n\n"

/-- The bytes are an event whose `data:` line has the JSON of the value. -/
def IsFrame (J : SerdeJson) (v : Value) (bytes : List UInt8) : Prop :=
  ∃ name data, '\n' ∉ String.toList name ∧ '\n' ∉ String.toList data ∧
    J.fromStr (Text.trim data) = some v ∧ bytes = utf8 (frameText name data)

/-- `serde_json` rejects these texts, which are not JSON. -/
structure RejectsNonJson (J : SerdeJson) : Prop where
  empty : J.fromStr "" = none
  marker : J.fromStr "[DONE]" = none
  event : ∀ s, J.fromStr ("event:" ++ s) = none

theorem newline_not_mem_append {key rest : String} (hkey : '\n' ∉ key.toList)
    (h : '\n' ∉ rest.toList) : '\n' ∉ (key ++ rest).toList := by
  rw [String.toList_append, List.mem_append, not_or]
  exact ⟨hkey, h⟩

theorem newline_not_mem_eventLine {name : String} (h : '\n' ∉ name.toList) :
    '\n' ∉ (eventLine name).toList :=
  newline_not_mem_append (by decide) h

theorem newline_not_mem_dataLine {data : String} (h : '\n' ∉ data.toList) :
    '\n' ∉ (dataLine data).toList :=
  newline_not_mem_append (by decide) h

section Frame

variable {J : SerdeJson} {v : Value} {bytes : List UInt8} {name data : String}

theorem utf8_frameText (name data : String) :
    utf8 (frameText name data) =
      (utf8 (eventLine name) ++ 10 :: utf8 (dataLine data)) ++ delimiter := by
  have hnewline : utf8 "\n" = [10] := by decide
  have hdelimiter : utf8 "\n\n" = delimiter := by decide
  simp [frameText, hnewline, hdelimiter]

/-- A line with its newline has no delimiter. -/
theorem not_delimiter_infix_line {line : List UInt8} (h : 10 ∉ line) :
    ¬ delimiter <:+: line ++ [10] := by
  rw [delimiter_infix_append_iff h]
  intro hinfix
  have := hinfix.length_le
  simp [delimiter] at this

theorem newline_not_mem_utf8_dataLine (h : '\n' ∉ data.toList) : 10 ∉ utf8 (dataLine data) :=
  mt newline_mem_utf8_iff.mp (newline_not_mem_dataLine h)

/-- An event is cut off as soon as it is complete. -/
theorem cut_frame (h : IsFrame J v bytes) : sseCutter.cut bytes = some (bytes, []) := by
  obtain ⟨name, data, hname, hdata, -, rfl⟩ := h
  have hname' : 10 ∉ utf8 (eventLine name) :=
    mt newline_mem_utf8_iff.mp (newline_not_mem_eventLine hname)
  have hpre : ¬ delimiter <:+: (utf8 (eventLine name) ++ 10 :: utf8 (dataLine data)) ++ [10] := by
    rw [List.append_assoc, delimiter_infix_append_iff hname', List.cons_append,
      delimiter_infix_cons_iff, not_or]
    refine ⟨?_, not_delimiter_infix_line (newline_not_mem_utf8_dataLine hdata)⟩
    -- the `data:` line is not empty
    have hkey : utf8 "data:" = [100, 97, 116, 97, 58] := by decide
    rw [dataLine, utf8_append, hkey]
    simp
  have hcut := cutEvent_append hpre []
  rw [List.append_nil] at hcut
  rw [show sseCutter.cut = cutEvent from rfl, utf8_frameText]
  exact hcut

theorem lines_frameText (hname : '\n' ∉ name.toList) (hdata : '\n' ∉ data.toList) :
    Text.lines (frameText name data) =
      [String.ofList (Text.stripCR (eventLine name).toList),
        String.ofList (Text.stripCR (dataLine data).toList), ""] := by
  have htext : frameText name data =
      eventLine name ++ "\n" ++ (dataLine data ++ "\n" ++ ("" ++ "\n" ++ "")) := by
    simp [frameText, String.append_assoc]
  rw [htext, Text.lines_append (newline_not_mem_eventLine hname),
    Text.lines_append (newline_not_mem_dataLine hdata), Text.lines_append (by decide),
    Text.lines_empty]
  rfl

/-- Of an `event:` line, whitespace at the end is trimmed. -/
theorem trim_eventLine (name : String) :
    Text.trim (String.ofList (Text.stripCR (eventLine name).toList)) =
      "event:" ++ String.ofList (name.toList.rdropWhile Text.isWhitespace) := by
  have hkey : "event:".toList = 'e' :: ['v', 'e', 'n', 't'] ++ [':'] := by decide
  exact Text.trim_line hkey (by decide) (by decide) name

theorem trim_dataLine (data : String) :
    Text.trim (String.ofList (Text.stripCR (dataLine data).toList)) =
      "data:" ++ String.ofList (data.toList.rdropWhile Text.isWhitespace) := by
  have hkey : "data:".toList = 'd' :: ['a', 't', 'a'] ++ [':'] := by decide
  exact Text.trim_line hkey (by decide) (by decide) data

/-- What follows `data:` is trimmed, with or without a space before it. -/
theorem jsonStr_dataLine (data : String) :
    jsonStr ("data:" ++ String.ofList (data.toList.rdropWhile Text.isWhitespace)) =
      Text.trim data := by
  rw [Text.trim, ← Text.trimChars_rdropWhile]
  generalize data.toList.rdropWhile Text.isWhitespace = cs
  by_cases hspace : ∃ cs', cs = ' ' :: cs'
  · obtain ⟨cs', rfl⟩ := hspace
    have hline : "data:" ++ String.ofList (' ' :: cs') = "data: " ++ String.ofList cs' := by
      apply String.toList_inj.mp
      simp
    rw [jsonStr, hline, Text.stripPrefix_append, Text.trimChars_cons_whitespace (by decide)]
    simp [Text.trim]
  · have hprefix : ¬ "data: ".toList <+: ("data:" ++ String.ofList cs).toList := by
      rintro ⟨rest, hrest⟩
      refine hspace ⟨rest, ?_⟩
      simpa using hrest.symm
    rw [jsonStr, Text.stripPrefix_of_not hprefix]
    dsimp only
    rw [Text.stripPrefix_append]
    simp [Text.trim]

theorem jsonStr_eventLine (name : String) : jsonStr ("event:" ++ name) = "event:" ++ name := by
  have hspace : ¬ "data: ".toList <+: ("event:" ++ name).toList := by simp
  have hprefix : ¬ "data:".toList <+: ("event:" ++ name).toList := by simp
  rw [jsonStr, Text.stripPrefix_of_not hspace]
  dsimp only
  rw [Text.stripPrefix_of_not hprefix]

/-! ## The lines of an event -/

variable {translateChunk : Value → Except TranspilerError Value}

theorem processLine_eventLine (hJ : RejectsNonJson J) (name : String) :
    processLine J translateChunk (String.ofList (Text.stripCR (eventLine name).toList)) =
      .skip := by
  rw [processLine, trim_eventLine]
  generalize String.ofList (name.toList.rdropWhile Text.isWhitespace) = name
  have hempty : Text.isEmpty ("event:" ++ name) = false :=
    Bool.eq_false_iff.mpr fun h => by simpa using Text.isEmpty_iff.mp h
  have hcomment : Text.startsWith ("event:" ++ name) ":" = false := by
    simp [Text.startsWith]
  have hmarker : ("event:" ++ name == "[DONE]") = false := by
    rw [beq_eq_false_iff_ne]
    intro h
    simpa using congrArg String.toList h
  simp only [hempty, hcomment, Bool.or_false, Bool.false_eq_true, if_false, jsonStr_eventLine,
    hmarker, hJ.event]

/-- The `data:` line of an event is translated, or skipped if that fails. -/
theorem processLine_dataLine (hJ : RejectsNonJson J)
    (hparse : J.fromStr (Text.trim data) = some v) :
    processLine J translateChunk (String.ofList (Text.stripCR (dataLine data).toList)) =
      (translateChunk v).toOption.elim .skip fun chunk => .event (J.toString chunk) := by
  rw [processLine, trim_dataLine]
  have hempty : ∀ s, Text.isEmpty ("data:" ++ s) = false := fun s =>
    Bool.eq_false_iff.mpr fun h => by simpa using Text.isEmpty_iff.mp h
  have hcomment : ∀ s, Text.startsWith ("data:" ++ s) ":" = false := fun s => by
    simp [Text.startsWith]
  -- a text that parses is neither the end marker nor empty
  have hmarker : (Text.trim data == "[DONE]") = false := by
    rw [beq_eq_false_iff_ne]
    intro h
    rw [h, hJ.marker] at hparse
    cases hparse
  have hdata : Text.isEmpty (Text.trim data) = false := by
    rw [Bool.eq_false_iff]
    intro h
    rw [Text.isEmpty_iff.mp h, hJ.empty] at hparse
    cases hparse
  simp only [hempty, hcomment, Bool.or_false, Bool.false_eq_true, if_false, jsonStr_dataLine,
    hmarker, hdata, hparse]
  cases translateChunk v <;> rfl

theorem processLine_empty : processLine J translateChunk "" = .skip := rfl

/-- An event is translated to one chunk. -/
theorem emits_frame (hJ : RejectsNonJson J) {chunk : Value} (h : IsFrame J v bytes)
    (htranslate : translateChunk v = .ok chunk) :
    Emits J translateChunk bytes (J.toString chunk) := by
  obtain ⟨name, data, hname, hdata, hparse, rfl⟩ := h
  rw [Emits, fromUtf8Lossy_utf8, lines_frameText hname hdata, processLines,
    processLine_eventLine hJ, processLines, processLine_dataLine hJ hparse, htranslate,
    processLines, processLine_empty]
  rfl

end Frame

/-! ## The stream -/

/-- The text that a client reads from the events: the joined
    `choices[0].delta.content` of those that are JSON. -/
def streamedText (J : SerdeJson) (events : List String) : String :=
  String.join (events.map fun data => ((J.fromStr data).map deltaContent).getD "")

section Stream

variable {J : SerdeJson}

/-- A stream of events is split into these events. -/
theorem splitEvents_flatten {frames : List (List UInt8)}
    (hcut : ∀ f ∈ frames, sseCutter.cut f = some (f, [])) :
    splitEvents frames.flatten = frames := by
  obtain ⟨hevents, hrest⟩ := sseCutter.frames_of_flatten hcut
  rw [splitEvents_eq, completeEvents, remainder, hevents, hrest]
  exact List.append_nil frames

theorem cut_of_forall₂ {R : Value → List UInt8 → Prop}
    (hcut : ∀ v bytes, R v bytes → sseCutter.cut bytes = some (bytes, [])) {values : List Value}
    {frames : List (List UInt8)} (h : List.Forall₂ R values frames) :
    ∀ f ∈ frames, sseCutter.cut f = some (f, []) := by
  induction h with
  | nil => simp
  | cons hframe _ ih => exact List.forall_mem_cons.mpr ⟨hcut _ _ hframe, ih⟩

theorem providerStream_ok (frames : List (List UInt8)) :
    providerStream (frames.map .ok) = frames.map .ok := by
  rw [providerStream, List.map_map]
  rfl

/-- The events of a stream are translated one by one. -/
theorem transformSseStream_frames (hJ : RejectsNonJson J) {values chunks : List Value}
    {frames : List (List UInt8)} (hframes : List.Forall₂ (IsFrame J) values frames)
    (hchunks : List.Forall₂ (fun v chunk => translateChunk v = .ok chunk) values chunks) :
    transformSseStream J translateChunk (frames.map .ok) =
      chunks.map J.toString ++ ["[DONE]"] := by
  apply transformSseStream_emits
  induction hframes generalizing chunks with
  | nil =>
    cases hchunks
    exact .nil
  | cons hframe _ ih =>
    cases hchunks with
    | cons hchunk hchunks => exact .cons (emits_frame hJ hframe hchunk) (ih hchunks)

/-- The client reads the text of each chunk, and nothing from `[DONE]`. -/
theorem streamedText_chunks (hJ : RejectsNonJson J) {chunks : List Value}
    (hprint : ∀ chunk ∈ chunks, J.fromStr (J.toString chunk) = some chunk) :
    streamedText J (chunks.map J.toString ++ ["[DONE]"]) =
      String.join (chunks.map deltaContent) := by
  rw [streamedText, List.map_append, String.join_append, List.map_map]
  have hchunks : chunks.map ((fun data => ((J.fromStr data).map deltaContent).getD "") ∘
      J.toString) = chunks.map deltaContent := by
    apply List.map_congr_left
    intro chunk hchunk
    simp [hprint chunk hchunk]
  have hdone : String.join (["[DONE]"].map
      fun data => ((J.fromStr data).map deltaContent).getD "") = "" := by
    simp [hJ.marker]
  rw [hchunks, hdone, String.append_empty]

theorem printed_of_translated {values chunks : List Value}
    (hchunks : List.Forall₂ (fun v chunk => translateChunk v = .ok chunk) values chunks)
    (hprint : ∀ v ∈ values, ∀ chunk, translateChunk v = .ok chunk →
      J.fromStr (J.toString chunk) = some chunk) :
    ∀ chunk ∈ chunks, J.fromStr (J.toString chunk) = some chunk := by
  induction hchunks with
  | nil => simp
  | @cons v chunk values chunks hchunk _ ih =>
    rw [List.forall_mem_cons] at hprint
    exact List.forall_mem_cons.mpr ⟨hprint.1 chunk hchunk, ih hprint.2⟩

/-- **Streamed text.** However a message is streamed in events, however the events
    are written as bytes and the bytes cut into network chunks, the client that
    joins the contents of the translated chunks reads the content of the answer
    that `from_native` gives for the complete message. -/
theorem streamed_text (hJ : RejectsNonJson J) (m : Message) {events : List StreamEvent}
    {values : List Value} {frames : List (List UInt8)} {inner : List BodyPoll}
    (hevents : m.Streams events) (hvalues : List.Forall₂ StreamEvent.IsValue events values)
    (hframes : List.Forall₂ (IsFrame J) values frames)
    (hprint : ∀ v ∈ values, ∀ chunk, translateChunk v = .ok chunk →
      J.fromStr (J.toString chunk) = some chunk)
    (hintact : Intact inner) (hbytes : bytesOf inner = frames.flatten) :
    (∃ items, Yields (.new inner) items) ∧
      ∀ items, Yields (.new inner) items →
        ∃ response answer, fromNative J m.value = .ok response ∧
          choiceMessage response = some answer ∧
          answer.get "content" = some (.string
            (streamedText J (transformSseStream J translateChunk (providerStream items)))) := by
  refine ⟨exists_yields inner [], fun items hitems => ?_⟩
  obtain ⟨response, hresponse, hanswer, -⟩ := fromNative_message J m
  refine ⟨response, m.answer J, hresponse, hanswer, ?_⟩
  obtain ⟨chunks, hchunks, hall⟩ := mapM_translateChunk hvalues
  have hchunks' := forall₂_of_mapM hchunks
  have hprinted := printed_of_translated hchunks' hprint
  have hitems' : items = frames.map .ok := by
    rw [yields_iff hintact, hbytes,
      splitEvents_flatten (cut_of_forall₂ (fun _ _ => cut_frame) hframes)] at hitems
    exact hitems
  rw [answer_content, hitems', providerStream_ok, transformSseStream_frames hJ hframes hchunks',
    streamedText_chunks hJ hprinted, deltaContents_chunks hall, text_streams hevents]

end Stream

/-! ## A stream -/

/-- The different chunks of the message that is cut off. -/
def truncatedChunks : List Value :=
  [openAiChunk "" (.json [("role", .string "assistant")]) .null, openAiChunk "" (.json []) .null,
    openAiChunk "" (.json [("content", .string "Hi")]) .null,
    openAiChunk "" (.json []) (.string "length"), openAiChunk "" (.json []) (.string "stop")]

/-- `serde_json` on the texts of this stream. -/
def truncatedJson : SerdeJson := .ofTable (truncatedValues ++ truncatedChunks)

/-- The bytes of an event, printed. -/
def frameOf (v : Value) : List UInt8 := utf8 (frameText " e" (" " ++ v.compact))

/-- The bytes of the stream arrive in two pieces, with a pause and an empty chunk
    between them. -/
def truncatedInner : List BodyPoll :=
  let bytes := (truncatedValues.map frameOf).flatten
  [.chunk (bytes.take 43), .pending, .chunk [], .chunk (bytes.drop 43)]

theorem truncatedJson_rejects : RejectsNonJson truncatedJson := by
  have hobject : ∀ v ∈ truncatedValues ++ truncatedChunks, ∃ m, v = .object m := by
    intro v hv
    simp only [truncatedValues, truncatedChunks, List.cons_append, List.nil_append, List.mem_cons,
      List.not_mem_nil, or_false] at hv
    rcases hv with rfl | rfl | rfl | rfl | rfl | rfl | rfl | rfl | rfl | rfl | rfl
    all_goals exact ⟨_, rfl⟩
  refine ⟨?_, ?_, fun s => ?_⟩
  all_goals
    apply SerdeJson.fromStr_ofTable_eq_none hobject
    simp

theorem truncatedJson_inverse {v : Value} (hv : v ∈ truncatedValues ++ truncatedChunks) :
    truncatedJson.fromStr (truncatedJson.toString v) = some v :=
  SerdeJson.fromStr_ofTable (by decide +kernel) hv

theorem truncatedFrames_isFrame :
    List.Forall₂ (IsFrame truncatedJson) truncatedValues (truncatedValues.map frameOf) := by
  have hprinted : ∀ v ∈ truncatedValues, '\n' ∉ v.compact.toList ∧
      Text.trim (" " ++ v.compact) = v.compact := by
    decide +kernel
  rw [List.forall₂_map_right_iff, List.forall₂_same]
  intro v hv
  obtain ⟨hnewline, htrim⟩ := hprinted v hv
  refine ⟨" e", " " ++ v.compact, by decide, newline_not_mem_append (by decide) hnewline, ?_, rfl⟩
  rw [htrim]
  exact truncatedJson_inverse (List.mem_append_left _ hv)

theorem truncatedChunks_printed : ∀ v ∈ truncatedValues, ∀ chunk, translateChunk v = .ok chunk →
    truncatedJson.fromStr (truncatedJson.toString chunk) = some chunk := by
  have hchunks : ∀ v ∈ truncatedValues, ∃ chunk ∈ truncatedChunks,
      translateChunk v = .ok chunk := by
    intro v hv
    simp only [truncatedValues, List.mem_cons, List.not_mem_nil, or_false] at hv
    rcases hv with rfl | rfl | rfl | rfl | rfl | rfl
    · exact ⟨_, .head _, rfl⟩
    · exact ⟨_, .tail _ (.head _), rfl⟩
    · exact ⟨_, .tail _ (.tail _ (.head _)), rfl⟩
    · exact ⟨_, .tail _ (.head _), rfl⟩
    · exact ⟨_, .tail _ (.tail _ (.tail _ (.head _))), rfl⟩
    · exact ⟨_, .tail _ (.tail _ (.tail _ (.tail _ (.head _)))), rfl⟩
  intro v hv chunk hchunk
  obtain ⟨chunk', hmem, hchunk'⟩ := hchunks v hv
  obtain rfl : chunk' = chunk := Except.ok.inj (hchunk'.symm.trans hchunk)
  exact truncatedJson_inverse (List.mem_append_right _ hmem)

/-- The stream of the message that is cut off is read as its text. -/
theorem streamed_text_truncated :
    (∃ items, Yields (.new truncatedInner) items) ∧
      ∀ items, Yields (.new truncatedInner) items →
        ∃ response answer, fromNative truncatedJson truncatedMessage.value = .ok response ∧
          choiceMessage response = some answer ∧
          answer.get "content" = some (.string (streamedText truncatedJson
            (transformSseStream truncatedJson translateChunk (providerStream items)))) := by
  refine streamed_text truncatedJson_rejects truncatedMessage truncatedMessage_streams
    truncatedValues_isValue truncatedFrames_isFrame truncatedChunks_printed ?_ ?_
  · intro x hx e
    simp only [truncatedInner, List.mem_cons, List.not_mem_nil, or_false] at hx
    rcases hx with rfl | rfl | rfl | rfl
    all_goals exact fun h => nomatch h
  · simp [truncatedInner, bytesOf]

end Melis.Streaming
