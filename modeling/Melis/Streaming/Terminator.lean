import Melis.Streaming.Model
import Melis.Transpiler.Factory

/-!
# How a stream ends

`transform_sse_stream` returns from within two loops: at a `[DONE]` line and at an error of
the provider's stream. Without the loops, the stream is a list of signals, cut at the first
that terminates it.

* `signals`, `beforeTerminator`: the lines and errors of a stream, and those up to its end.
* `transformSseStream_eq`: the code translates the signals before the terminator.
* `transformSseStream_terminator`: what is emitted, and what does not matter.
-/

namespace Melis.Streaming

open Transpiler

/-! ## The signals of a stream -/

/-- What a stream consists of: lines, and errors. -/
inductive Signal where
  | line (text : String)
  | failure
deriving DecidableEq

/-- The lines and errors of the items, in order. -/
def signals : List (Except StreamError (List UInt8)) → List Signal
  | [] => []
  | .ok bytes :: items => (Text.lines (fromUtf8Lossy bytes)).map .line ++ signals items
  | .error _ :: items => .failure :: signals items

/-- The data of a line, with or without the `data:` prefix; blank lines and comments have
    none. -/
def dataOf (text : String) : Option String :=
  let line := Text.trim text
  if Text.isEmpty line || Text.startsWith line ":" then none
  else if Text.isEmpty (jsonStr line) then none
  else some (jsonStr line)

namespace Signal

/-- A `[DONE]` line or an error. -/
def terminates : Signal → Bool
  | line text => dataOf text == some "[DONE]"
  | failure => true

/-- The translation of a line whose data parses and is accepted. -/
def translation (J : SerdeJson) (translateChunk : Value → Except TranspilerError Value) :
    Signal → Option String
  | line text => (dataOf text).bind fun data => (J.fromStr data).bind fun parsed =>
      (translateChunk parsed).toOption.map J.toString
  | failure => none

end Signal

/-- The signals before the first that terminates the stream. -/
def beforeTerminator (items : List (Except StreamError (List UInt8))) : List Signal :=
  (signals items).takeWhile fun s => !s.terminates

/-! ## What the code translates -/

section Transform

variable {J : SerdeJson} {translateChunk : Value → Except TranspilerError Value}

/-- The body of the loop over the lines. -/
theorem processLine_eq (text : String) :
    processLine J translateChunk text =
      if (Signal.line text).terminates then .done
      else ((Signal.line text).translation J translateChunk).elim .skip .event := by
  have hterminates : (Signal.line text).terminates = (dataOf text == some "[DONE]") := rfl
  have htranslation : (Signal.line text).translation J translateChunk =
      (dataOf text).bind fun data => (J.fromStr data).bind fun parsed =>
        (translateChunk parsed).toOption.map J.toString := rfl
  rw [hterminates, htranslation, processLine, dataOf]
  dsimp only
  by_cases hskip : (Text.isEmpty (Text.trim text) || Text.startsWith (Text.trim text) ":") = true
  · rw [if_pos hskip, if_pos hskip]
    rfl
  rw [if_neg hskip, if_neg hskip]
  generalize jsonStr (Text.trim text) = data
  by_cases hempty : Text.isEmpty data = true
  · rw [if_pos hempty, if_pos hempty, if_neg]
    · rfl
    · rw [Text.isEmpty_iff.mp hempty]
      decide
  rw [if_neg hempty, if_neg hempty]
  by_cases hmarker : data = "[DONE]"
  · rw [if_pos (beq_iff_eq.mpr hmarker), if_pos (by rw [hmarker]; rfl)]
  · rw [if_neg (by simpa using hmarker), if_neg (by simpa using hmarker), Option.bind_some]
    cases J.fromStr data with
    | none => rfl
    | some parsed =>
      rw [Option.bind_some]
      dsimp only
      cases translateChunk parsed <;> rfl

/-- The translations of some signals up to the first that terminates the stream. -/
def translations (J : SerdeJson) (translateChunk : Value → Except TranspilerError Value)
    (ss : List Signal) : List String :=
  (ss.takeWhile fun s => !s.terminates).filterMap (Signal.translation J translateChunk)

theorem translations_cons_of_terminates {s : Signal} (h : s.terminates = true)
    (ss : List Signal) : translations J translateChunk (s :: ss) = [] := by
  rw [translations, List.takeWhile_cons_of_neg (by simp [h])]
  rfl

theorem translations_cons {s : Signal} (h : s.terminates = false) (ss : List Signal) :
    translations J translateChunk (s :: ss) =
      (s.translation J translateChunk).toList ++ translations J translateChunk ss := by
  rw [translations, translations, List.takeWhile_cons_of_pos (by simp [h]), List.filterMap_cons]
  cases s.translation J translateChunk <;> rfl

/-- The loop over the lines of an item, before what the rest of the stream emits. -/
theorem processLines_eq (lines : List String) {rest : List Signal} {tail : List String}
    (htail : tail = translations J translateChunk rest ++ ["[DONE]"]) :
    (if (processLines J translateChunk lines).2 then (processLines J translateChunk lines).1
      else (processLines J translateChunk lines).1 ++ tail) =
      translations J translateChunk (lines.map .line ++ rest) ++ ["[DONE]"] := by
  induction lines with
  | nil => exact htail
  | cons line lines ih =>
    rw [List.map_cons, List.cons_append, processLines, processLine_eq]
    cases hterminates : (Signal.line line).terminates with
    | true =>
      rw [translations_cons_of_terminates hterminates]
      rfl
    | false =>
      rw [translations_cons hterminates, List.append_assoc, ← ih, if_neg Bool.false_ne_true]
      cases (Signal.line line).translation J translateChunk with
      | none => rfl
      | some data =>
        cases (processLines J translateChunk lines).2 <;> simp

/-- The code translates the signals before the terminator. -/
theorem transformSseStream_eq (items : List (Except StreamError (List UInt8))) :
    transformSseStream J translateChunk items =
      translations J translateChunk (signals items) ++ ["[DONE]"] := by
  induction items with
  | nil => rfl
  | cons item items ih =>
    cases item with
    | error e => rfl
    | ok bytes =>
      rw [transformSseStream, signals]
      exact processLines_eq _ ih

/-- What follows the first terminator does not matter. -/
theorem translations_append {before : List Signal} {s : Signal} (h : s.terminates = true)
    (after after' : List Signal) :
    translations J translateChunk (before ++ s :: after) =
      translations J translateChunk (before ++ s :: after') := by
  induction before with
  | nil =>
    rw [List.nil_append, List.nil_append, translations_cons_of_terminates h,
      translations_cons_of_terminates h]
  | cons s' before ih =>
    cases hs : s'.terminates with
    | true =>
      rw [List.cons_append, List.cons_append, translations_cons_of_terminates hs,
        translations_cons_of_terminates hs]
    | false =>
      rw [List.cons_append, List.cons_append, translations_cons hs, translations_cons hs, ih]

/-- A printed value is not the marker, which is no JSON. -/
theorem not_mem_translations (hmarker : J.fromStr "[DONE]" = none)
    (hprint : ∀ text parsed chunk, J.fromStr text = some parsed →
      translateChunk parsed = .ok chunk → J.fromStr (J.toString chunk) ≠ none)
    (ss : List Signal) : "[DONE]" ∉ translations J translateChunk ss := by
  intro hmem
  obtain ⟨s, -, hs⟩ := List.mem_filterMap.mp hmem
  cases s with
  | failure => cases hs
  | line text =>
    rw [Signal.translation] at hs
    obtain ⟨data, -, hdata⟩ := Option.bind_eq_some_iff.mp hs
    obtain ⟨parsed, hparsed, htranslated⟩ := Option.bind_eq_some_iff.mp hdata
    obtain ⟨chunk, hchunk, hprinted⟩ := Option.map_eq_some_iff.mp htranslated
    have hok : translateChunk parsed = .ok chunk := by
      cases h : translateChunk parsed with
      | error e =>
        rw [h] at hchunk
        cases hchunk
      | ok chunk' =>
        rw [h] at hchunk
        exact congrArg _ (Option.some.inj hchunk)
    have hread := hprint data parsed chunk hparsed hok
    rw [hprinted] at hread
    exact hread hmarker

/-- **The end of a stream.** Exactly one `[DONE]` is emitted, and it is the last event. The
    events before it are the translations, in order, of those signals before the first
    terminator that are lines whose data parses and is accepted. What follows the first
    terminator does not matter. `serde_json` reads what it prints, and `[DONE]` is no JSON. -/
theorem transformSseStream_terminator (J : SerdeJson)
    (translateChunk : Value → Except TranspilerError Value)
    (hmarker : J.fromStr "[DONE]" = none)
    (hprint : ∀ text parsed chunk, J.fromStr text = some parsed →
      translateChunk parsed = .ok chunk → J.fromStr (J.toString chunk) ≠ none)
    (items : List (Except StreamError (List UInt8))) :
    (∃ events, transformSseStream J translateChunk items = events ++ ["[DONE]"] ∧
      "[DONE]" ∉ events ∧
      events = (beforeTerminator items).filterMap (Signal.translation J translateChunk)) ∧
    ∀ before s after, signals items = before ++ s :: after → s.terminates = true →
      ∀ items' after', signals items' = before ++ s :: after' →
        transformSseStream J translateChunk items' = transformSseStream J translateChunk items := by
  refine ⟨⟨_, transformSseStream_eq items, not_mem_translations hmarker hprint _, rfl⟩, ?_⟩
  intro before s after hitems hs items' after' hitems'
  rw [transformSseStream_eq, transformSseStream_eq, hitems, hitems', translations_append hs]

end Transform

/-! ## A stream that breaks off -/

/-- A chunk of OpenAI's format. -/
def helloChunk : Value := .json [("object", .string "chat.completion.chunk")]

/-- A comment, the chunk, a line that is no JSON; then the connection is lost, and a second
    copy of the chunk does not count. -/
def brokenItems : List (Except StreamError (List UInt8)) :=
  [.ok (utf8 (": ping\ndata: " ++ helloChunk.compact ++ "\n\ndata:hello\n")),
    .error (.connection "reset"), .ok (utf8 helloChunk.compact)]

/-- The passthrough emits the chunk once, and then `[DONE]`. -/
theorem transformSseStream_terminator_broken :
    transformSseStream (.ofTable [helloChunk]) openAi.translateChunk brokenItems =
      [helloChunk.compact, "[DONE]"] := by
  have hobject : ∀ v ∈ [helloChunk], ∃ m, v = .object m :=
    fun v hv => ⟨_, List.mem_singleton.mp hv⟩
  have hprint : ∀ text parsed chunk, (SerdeJson.ofTable [helloChunk]).fromStr text = some parsed →
      openAi.translateChunk parsed = .ok chunk →
      (SerdeJson.ofTable [helloChunk]).fromStr chunk.compact ≠ none := by
    intro text parsed chunk hparsed hchunk
    have hfind : [helloChunk].find? (fun v => v.compact == text) = some parsed := hparsed
    have hmem := List.mem_of_find?_eq_some hfind
    obtain rfl := Except.ok.inj hchunk
    have hnodup : ([helloChunk].map Value.compact).Nodup := List.nodup_singleton _
    rw [SerdeJson.fromStr_ofTable hnodup hmem]
    exact nofun
  have hmarker : (SerdeJson.ofTable [helloChunk]).fromStr "[DONE]" = none :=
    SerdeJson.fromStr_ofTable_eq_none hobject (by decide)
  obtain ⟨events, htransform, -, hevents⟩ := (transformSseStream_terminator
    (.ofTable [helloChunk]) openAi.translateChunk hmarker hprint brokenItems).1
  rw [htransform, hevents]
  decide +kernel

end Melis.Streaming
