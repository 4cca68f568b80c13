import Melis.Router.Contacts
import Melis.Streaming.OpenAi
import Melis.Transpiler.Factory

/-!
# The codec of a provider type

The handler translates requests and complete responses for the types `anthropic`
and `vertex_anthropic` only, but reads streams with whatever transpiler the
factory gives. For `google_vertex_ai` that is one that no request goes through.

* `sameCodec_iff`: the provider types whose replies are read as their requests
  are written.
* `chunks_lost`: a stream for `google_vertex_ai` loses every chunk.
-/

namespace Melis.Router

open Client Transpiler Streaming

/-! ## Encoding and decoding -/

/-- The data of the events that the client gets of a response, when the upstream's
    stream yields `items` (lines 558–568). A complete response has no events. -/
def Response.events (J : SerdeJson) (items : List Item) : Response → List String
  | .json _ => []
  | .sse providerType _ =>
    transformSseStream J (getTranspiler J providerType).translateChunk (providerStream items)

/-- The transpilers that change what they translate. -/
def translators (J : SerdeJson) : List PayloadTranspiler :=
  [anthropic J, vertex, vertexAnthropic J]

/-- Requests are sent as they are. -/
def SendsUntranslated (J : SerdeJson) (endpoint : Endpoint) : Prop :=
  ∀ payload, buildBody J endpoint payload = some payload

/-- Requests are translated by `T`. -/
def TranslatesWith (J : SerdeJson) (endpoint : Endpoint) (T : PayloadTranspiler) : Prop :=
  ∀ payload, buildBody J endpoint payload = (T.toNative payload).toOption

/-- A complete response `v` reaches the client as `f v`. -/
def CompleteAs (J : SerdeJson) (endpoint : Endpoint) (f : Value → Value) : Prop :=
  ∀ job : Job, job.J = J → job.streaming = false → ∀ reply bytes v, send reply = .ok bytes →
    J.fromSlice bytes = some v →
    (exchange job endpoint reply).2 = .answer (.ok (.json (f v)))

/-- The stream of a reply with `items` reaches the client as the events `events`. -/
def StreamsAs (J : SerdeJson) (endpoint : Endpoint) (items : List Item) (events : List String) :
    Prop :=
  ∀ job : Job, job.J = J → job.streaming = true → ∀ reply, ∃ r,
    (exchange job endpoint reply).2 = .answer (.ok r) ∧ r.events J items = events

/-- Replies are read as requests are written. When these are sent as they are, every
    complete response and every chunk reaches the client as the same value; when they
    are translated by a transpiler, complete responses go through its `from_native`
    and chunks through its `translate_chunk`. -/
structure SameCodec (J : SerdeJson) (endpoint : Endpoint) : Prop where
  untranslated : SendsUntranslated J endpoint →
    CompleteAs J endpoint id ∧
    ∀ chunks frames inner items, (∀ c ∈ chunks, IsChunk c) → IsOpenAiStream J chunks frames →
      Intact inner → bytesOf inner = frames.flatten → Yields (.new inner) items →
      StreamsAs J endpoint items (chunks.map J.toString ++ ["[DONE]"])
  translated : ∀ T ∈ translators J, TranslatesWith J endpoint T →
    CompleteAs J endpoint (fun v => (T.fromNative v).toOption.getD v) ∧
    ∀ items, StreamsAs J endpoint items
      (transformSseStream J T.translateChunk (providerStream items))

section Endpoint

variable {J : SerdeJson} {endpoint : Endpoint}

/-- Complete responses are read by `final_response`. -/
theorem completeAs_of_finalResponse {f : Value → Value}
    (h : ∀ v, finalResponse J endpoint.providerType v = f v) : CompleteAs J endpoint f := by
  rintro job rfl hawaited reply bytes v hsend hparse
  rw [exchange_of_awaited hawaited]
  simp only [hsend, sendOutcome, hparse, h]

/-- Streams are read by the factory's transpiler. -/
theorem streamsAs_iff {items : List Item} {events : List String} :
    StreamsAs J endpoint items events ↔
      transformSseStream J (getTranspiler J endpoint.providerType).translateChunk
        (providerStream items) = events := by
  have hsse : ∀ job : Job, job.streaming = true → ∀ reply,
      (exchange job endpoint reply).2 =
        .answer (.ok (.sse endpoint.providerType reply)) := by
    intro job hs reply
    simp [exchange, hs]
  constructor
  · intro h
    let job : Job :=
      { config := ⟨[], .default, .default⟩, J, model := "", payload := .null, providers := []
        streaming := true }
    obtain ⟨r, hr, hevents⟩ := h job rfl rfl (.unanswered true "")
    rw [hsse job rfl] at hr
    cases hr
    exact hevents
  · rintro h job - hs reply
    exact ⟨_, hsse job hs reply, h⟩

/-! ## The types that are translated -/

theorem sendsUntranslated_iff :
    SendsUntranslated J endpoint ↔
      endpoint.providerType ≠ "anthropic" ∧ endpoint.providerType ≠ "vertex_anthropic" := by
  constructor
  · intro h
    -- `null` is not translated
    constructor <;> intro htype <;> have hnull := h .null <;> rw [buildBody, htype] at hnull <;>
      cases hnull
  · rintro ⟨hanthropic, hvertex⟩ payload
    simp [buildBody, hanthropic, hvertex]

/-- What is sent as it is goes through none of the translators. -/
theorem not_translatesWith (h : SendsUntranslated J endpoint) {T : PayloadTranspiler}
    (hT : T ∈ translators J) : ¬ TranslatesWith J endpoint T := by
  intro htranslates
  have hnull := (h .null).symm.trans (htranslates .null)
  simp only [translators, List.mem_cons, List.not_mem_nil, or_false] at hT
  rcases hT with rfl | rfl | rfl <;> cases hnull

/-- Replies in Anthropic's format are read as such. -/
theorem decodes_anthropic (hsends : ¬ SendsUntranslated J endpoint) :
    CompleteAs J endpoint (fun v => (Anthropic.fromNative J v).toOption.getD v) ∧
      ∀ items, StreamsAs J endpoint items
        (transformSseStream J Anthropic.translateChunk (providerStream items)) := by
  rw [sendsUntranslated_iff, not_and_or, not_not, not_not] at hsends
  rcases hsends with htype | htype
  all_goals
    refine ⟨completeAs_of_finalResponse fun v => ?_, fun items => streamsAs_iff.mpr ?_⟩
    · rw [finalResponse, htype]
      rfl
    · rw [htype]
      rfl

/-- Gemini's format is not that of a translated request: it needs no model. -/
theorem not_translatesWith_vertex (hsends : ¬ SendsUntranslated J endpoint) :
    ¬ TranslatesWith J endpoint vertex := by
  intro htranslates
  have hmessages := htranslates (.json [("messages", .array [])])
  rw [sendsUntranslated_iff, not_and_or, not_not, not_not] at hsends
  rcases hsends with htype | htype <;> rw [buildBody, htype] at hmessages <;> cases hmessages

end Endpoint

/-! ## The types whose streams are read -/

/-- A chunk of OpenAI's format. -/
def deltaChunk : Value :=
  .json [("id", .string "chatcmpl-1"), ("object", .string "chat.completion.chunk"),
    ("choices", .array [.json [("index", .number (.posInt 0)),
      ("delta", .json [("content", .string "Hi")]), ("finish_reason", .null)]])]

/-- Its event. -/
def deltaFrame : List UInt8 := utf8 (dataFrameText (" " ++ deltaChunk.compact))

section Delta

variable {J : SerdeJson} (hparse : J.fromStr deltaChunk.compact = some deltaChunk)
include hparse

theorem deltaFrame_isOpenAiStream : IsOpenAiStream J [deltaChunk] [deltaFrame] := by
  have htext : '\n' ∉ (" " ++ deltaChunk.compact).toList ∧
      Text.trim (" " ++ deltaChunk.compact) = deltaChunk.compact := by decide +kernel
  exact ⟨[deltaFrame], .cons ⟨_, htext.1, by rw [htext.2]; exact hparse, rfl⟩ .nil, .inl rfl⟩

/-- The Vertex transpiler finds no candidates in the chunk, and skips it. -/
theorem vertex_skips (hJ : RejectsNonJson J) :
    transformSseStream J (getTranspiler J "google_vertex_ai").translateChunk
      (providerStream [.ok deltaFrame]) = ["[DONE]"] := by
  exact transformSseStream_openAi hJ (deltaFrame_isOpenAiStream hparse)

/-- A stream for Gemini on Vertex AI loses its chunks. -/
theorem not_sameCodec_vertex (hJ : RejectsNonJson J) {endpoint : Endpoint}
    (htype : endpoint.providerType = "google_vertex_ai") : ¬ SameCodec J endpoint := by
  intro h
  have hsends : SendsUntranslated J endpoint := by
    rw [sendsUntranslated_iff, htype]
    decide
  obtain ⟨items, hitems⟩ := exists_yields [.chunk deltaFrame] []
  have hstream := deltaFrame_isOpenAiStream hparse
  have hintact : Intact [.chunk deltaFrame] := by
    intro x hx e
    rw [List.mem_singleton.mp hx]
    exact fun h => nomatch h
  have hbytes : bytesOf [.chunk deltaFrame] = [deltaFrame].flatten := rfl
  obtain rfl := items_openAi hstream hintact hbytes hitems
  have hchunk : ∀ c ∈ [deltaChunk], IsChunk c :=
    fun c hc => List.mem_singleton.mp hc ▸ ⟨rfl, _, rfl⟩
  have hevents := streamsAs_iff.mp
    ((h.untranslated hsends).2 _ _ _ _ hchunk hstream hintact hbytes hitems)
  rw [htype] at hevents
  have hlength := congrArg List.length ((vertex_skips hparse hJ).symm.trans hevents)
  cases hlength

end Delta

/-- **Codecs.** Replies are read as requests are written for every provider type but
    `google_vertex_ai`. -/
theorem sameCodec_iff {J : SerdeJson} (hJ : RejectsNonJson J)
    (hparse : J.fromStr deltaChunk.compact = some deltaChunk) (endpoint : Endpoint) :
    SameCodec J endpoint ↔ endpoint.providerType ≠ "google_vertex_ai" := by
  constructor
  · exact fun h htype => not_sameCodec_vertex hparse hJ htype h
  intro hne
  constructor
  · intro hsends
    obtain ⟨hanthropic, hvertex⟩ := sendsUntranslated_iff.mp hsends
    refine ⟨completeAs_of_finalResponse fun v => ?_, ?_⟩
    · simp [finalResponse, hanthropic, hvertex]
    · intro chunks frames inner items _ hstream hintact hbytes hitems
      obtain rfl := items_openAi hstream hintact hbytes hitems
      rw [streamsAs_iff, getTranspiler_of_ne J hanthropic hne hvertex, providerStream_ok,
        transformSseStream_openAi hJ hstream]
      exact congrArg (· ++ ["[DONE]"]) (congrFun List.filterMap_eq_map' chunks)
  · intro T hT htranslates
    have hsends : ¬ SendsUntranslated J endpoint :=
      fun h => not_translatesWith h hT htranslates
    simp only [translators, List.mem_cons, List.not_mem_nil, or_false] at hT
    rcases hT with rfl | rfl | rfl
    · exact decodes_anthropic hsends
    · exact absurd htranslates (not_translatesWith_vertex hsends)
    · exact decodes_anthropic hsends

/-! ## Examples -/

/-- `serde_json` on the text of the chunk. -/
def deltaJson : SerdeJson := .ofTable [deltaChunk]

theorem deltaJson_rejects : RejectsNonJson deltaJson := by
  have hobject : ∀ v ∈ [deltaChunk], ∃ m, v = .object m :=
    fun v hv => List.mem_singleton.mp hv ▸ ⟨_, rfl⟩
  refine ⟨?_, ?_, fun s => ?_⟩
  all_goals
    apply SerdeJson.fromStr_ofTable_eq_none hobject
    simp

theorem deltaJson_parses : deltaJson.fromStr deltaChunk.compact = some deltaChunk := by
  have htexts : ([deltaChunk].map Value.compact).Nodup :=
    List.nodup_singleton deltaChunk.compact
  exact SerdeJson.fromStr_ofTable htexts List.mem_cons_self

/-- A provider of the type. -/
def endpointOfType (providerType : String) : Endpoint where
  baseUrl := "https://example.com/openai"
  apiKey := ""
  providerType := providerType
  timeout := .fromSecs 120

/-- OpenAI's replies are read as its requests are written. -/
theorem sameCodec_iff_openAi : SameCodec deltaJson (endpointOfType "openai") :=
  (sameCodec_iff deltaJson_rejects deltaJson_parses _).mpr (by decide)

/-- For Gemini on Vertex AI, the chunk of a stream is lost: only `[DONE]` reaches the
    client. -/
theorem chunks_lost :
    SendsUntranslated deltaJson (endpointOfType "google_vertex_ai") ∧ IsChunk deltaChunk ∧
    (Response.sse "google_vertex_ai" (.answered 200 (.complete deltaFrame ""))).events deltaJson
      [.ok deltaFrame] = ["[DONE]"] ∧
    ¬ SameCodec deltaJson (endpointOfType "google_vertex_ai") :=
  ⟨sendsUntranslated_iff.mpr (by decide), ⟨rfl, _, rfl⟩,
    vertex_skips deltaJson_parses deltaJson_rejects,
    not_sameCodec_vertex deltaJson_parses deltaJson_rejects rfl⟩

end Melis.Router
