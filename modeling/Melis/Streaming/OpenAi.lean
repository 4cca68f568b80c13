import Melis.Streaming.Text

/-!
# Streams in OpenAI's format

OpenAI's events have a `data:` line only, and the last one is `[DONE]`. Whatever
transpiler reads such a stream, each chunk leads to at most one event, in order.

* `IsOpenAiStream`: the bytes of a stream of chunks.
* `transformSseStream_openAi`: the events made of such a stream.
-/

namespace Melis.Streaming

open Transpiler Client

/-! ## The bytes of a chunk -/

/-- A streamed chunk of OpenAI's format. -/
structure IsChunk (v : Value) : Prop where
  object : v.get "object" = some (.string "chat.completion.chunk")
  choices : ∃ choices, v.get "choices" = some (.array choices)

/-- The text of an event with a `data:` line only. -/
def dataFrameText (data : String) : String := dataLine data ++ "\n\n"

/-- The bytes are an event whose `data:` line, its only one, has the JSON of the
    value. -/
def IsDataFrame (J : SerdeJson) (v : Value) (bytes : List UInt8) : Prop :=
  ∃ data, '\n' ∉ String.toList data ∧ J.fromStr (Text.trim data) = some v ∧
    bytes = utf8 (dataFrameText data)

/-- The bytes of the event that ends a stream. -/
def doneFrame : List UInt8 := utf8 (dataFrameText " [DONE]")

/-- The events of the chunks, with or without one that ends the stream. -/
def IsOpenAiStream (J : SerdeJson) (chunks : List Value) (frames : List (List UInt8)) : Prop :=
  ∃ events, List.Forall₂ (IsDataFrame J) chunks events ∧
    (frames = events ∨ frames = events ++ [doneFrame])

section DataFrame

variable {J : SerdeJson} {v : Value} {bytes : List UInt8} {data : String}
  {translateChunk : Value → Except TranspilerError Value}

theorem cut_dataFrameText (hdata : '\n' ∉ data.toList) :
    sseCutter.cut (utf8 (dataFrameText data)) = some (utf8 (dataFrameText data), []) := by
  have htext : utf8 (dataFrameText data) = utf8 (dataLine data) ++ delimiter := by
    have hdelimiter : utf8 "\n\n" = delimiter := by decide
    rw [dataFrameText, utf8_append, hdelimiter]
  have hcut := cutEvent_append (not_delimiter_infix_line (newline_not_mem_utf8_dataLine hdata)) []
  rwa [List.append_nil, ← htext] at hcut

theorem lines_dataFrameText (hdata : '\n' ∉ data.toList) :
    Text.lines (dataFrameText data) =
      [String.ofList (Text.stripCR (dataLine data).toList), ""] := by
  have htext : dataFrameText data = dataLine data ++ "\n" ++ ("" ++ "\n" ++ "") := by
    simp [dataFrameText, String.append_assoc]
  rw [htext, Text.lines_append (newline_not_mem_dataLine hdata), Text.lines_append (by decide),
    Text.lines_empty]
  rfl

/-- An event is translated to one chunk, or skipped. -/
theorem processLines_dataFrame (hJ : RejectsNonJson J) (h : IsDataFrame J v bytes) :
    processLines J translateChunk (Text.lines (fromUtf8Lossy bytes)) =
      (((translateChunk v).toOption.map J.toString).toList, false) := by
  obtain ⟨data, hdata, hparse, rfl⟩ := h
  rw [fromUtf8Lossy_utf8, lines_dataFrameText hdata, processLines,
    processLine_dataLine hJ hparse]
  cases translateChunk v <;> rfl

theorem processLines_doneFrame :
    processLines J translateChunk (Text.lines (fromUtf8Lossy doneFrame)) = (["[DONE]"], true) := by
  rw [doneFrame, fromUtf8Lossy_utf8, lines_dataFrameText (by decide)]
  rfl

/-! ## The stream -/

/-- What a stream of chunks leads to: the events of those that are translated. -/
theorem transformSseStream_openAi (hJ : RejectsNonJson J) {chunks : List Value}
    {frames : List (List UInt8)} (h : IsOpenAiStream J chunks frames) :
    transformSseStream J translateChunk (frames.map .ok) =
      (chunks.filterMap fun v => (translateChunk v).toOption.map J.toString) ++ ["[DONE]"] := by
  obtain ⟨events, hevents, hframes⟩ := h
  have hstream : ∀ tail, transformSseStream J translateChunk (tail.map .ok) = ["[DONE]"] →
      transformSseStream J translateChunk ((events ++ tail).map .ok) =
        (chunks.filterMap fun v => (translateChunk v).toOption.map J.toString) ++ ["[DONE]"] := by
    intro tail htail
    clear hframes
    induction hevents with
    | nil => exact htail
    | @cons v bytes chunks events hframe _ ih =>
      rw [List.cons_append, List.map_cons, transformSseStream, processLines_dataFrame hJ hframe]
      dsimp only
      rw [if_neg Bool.false_ne_true, ih, ← List.append_assoc, List.filterMap_cons]
      cases (translateChunk v).toOption <;> rfl
  rcases hframes with rfl | rfl
  · simpa using hstream [] rfl
  · refine hstream [doneFrame] ?_
    rw [List.map_singleton, transformSseStream, processLines_doneFrame]
    rfl

/-- However the bytes of the stream are cut on their way, its events arrive. -/
theorem items_openAi {chunks : List Value} {frames : List (List UInt8)} {inner : List BodyPoll}
    {items : List Item} (h : IsOpenAiStream J chunks frames) (hintact : Intact inner)
    (hbytes : bytesOf inner = frames.flatten) (hitems : Yields (.new inner) items) :
    items = frames.map .ok := by
  obtain ⟨events, hevents, hframes⟩ := h
  have hcut : ∀ f ∈ events, sseCutter.cut f = some (f, []) := by
    refine cut_of_forall₂ (fun v bytes hframe => ?_) hevents
    obtain ⟨data, hdata, -, rfl⟩ := hframe
    exact cut_dataFrameText hdata
  have hall : ∀ f ∈ frames, sseCutter.cut f = some (f, []) := by
    rcases hframes with rfl | rfl
    · exact hcut
    · refine List.forall_mem_append.mpr ⟨hcut, fun f hf => ?_⟩
      rw [List.mem_singleton.mp hf]
      exact cut_dataFrameText (by decide)
  rwa [yields_iff hintact, hbytes, splitEvents_flatten hall] at hitems

end DataFrame

end Melis.Streaming
