import Melis.Embeddings.Model

/-!
# What the embeddings endpoint answers (`embeddings.rs`)

The batch path and the fallback path, which asks once for each input, join before the
count and the emptiness of the vectors are checked.

* `callOllamaEmbeddingsLegacy_answered`, `callOllama_answered`: with an Ollama that
  embeds with `E` both paths give the vector of each input, in order.
* `callOllamaEmbeddingsLegacy_failed`: a failing request ends the loop with an error.
* `embeddingsHandler_response`: the handler's response.
-/

namespace Melis.Embeddings

open Client

/-! ## What Ollama answers -/

/-- The call is answered as by an Ollama that embeds with `E`: `/api/embed` gives the
    vectors of the inputs or, where it does not exist, 404, and `/api/embeddings` gives
    the vector of the prompt. -/
structure Answered (O : OllamaJson) (E : String → List F64) (call : OllamaCall) : Prop where
  batch : ∀ inputs : List String, call.body.get "input" = some (.array (inputs.map .string)) →
    (∃ bytes, send call.reply = .ok bytes ∧ O.embeddings bytes = .ok (inputs.map E)) ∨
      ∃ body, call.reply = .answered 404 body
  legacy : ∀ prompt, call.body.get "prompt" = some (.string prompt) →
    ∃ bytes, send call.reply = .ok bytes ∧ O.embedding bytes = .ok (E prompt)

/-- The call brings no vector: no body arrives, or none that can be read. -/
def Failed (O : OllamaJson) (call : OllamaCall) : Prop :=
  ∀ bytes embedding, send call.reply = .ok bytes → O.embedding bytes ≠ .ok embedding

section Calls

variable {O : OllamaJson} {provider : ProviderConfig} {model : String} {replies : ℕ → Reply}
  {E : String → List F64}

theorem get_input_embedCall (inputs : List String) (reply : Reply) :
    (embedCall provider model inputs reply).body.get "input" =
      some (.array (inputs.map .string)) := by
  simp [embedCall, Value.get_json, Entries.get_cons]

theorem get_prompt_embedCall (inputs : List String) (reply : Reply) :
    (embedCall provider model inputs reply).body.get "prompt" = none := by
  simp [embedCall, Value.get_json, Entries.get_cons]

theorem get_input_legacyCall (input : String) (reply : Reply) :
    (legacyCall provider model input reply).body.get "input" = none := by
  simp [legacyCall, Value.get_json, Entries.get_cons]

theorem get_prompt_legacyCall (input : String) (reply : Reply) :
    (legacyCall provider model input reply).body.get "prompt" = some (.string input) := by
  simp [legacyCall, Value.get_json, Entries.get_cons]

/-! ## The two paths -/

theorem embedResult_of_ok {reply : Reply} {bytes : List UInt8} {embeddings : List (List F64)}
    (hsend : send reply = .ok bytes) (hread : O.embeddings bytes = .ok embeddings) :
    embedResult O reply = .ok embeddings := by
  simp [embedResult, hsend, hread]

theorem embedResult_notFound (body : Body) :
    embedResult O (.answered 404 body) = .error .notFound := by
  rw [embedResult, send_answered_of_not_success (by decide)]
  rfl

theorem legacyResult_of_ok {reply : Reply} {bytes : List UInt8} {embedding : List F64}
    (hsend : send reply = .ok bytes) (hread : O.embedding bytes = .ok embedding) :
    legacyResult O reply = .ok embedding := by
  simp [legacyResult, hsend, hread]

theorem legacyResult_ok {reply : Reply} {embedding : List F64}
    (h : legacyResult O reply = .ok embedding) :
    ∃ bytes, send reply = .ok bytes ∧ O.embedding bytes = .ok embedding := by
  unfold legacyResult at h
  split at h
  · rename_i bytes hsend
    split at h
    · rename_i embedding' hread
      cases h
      exact ⟨bytes, hsend, hread⟩
    · cases h
  · cases h
  · cases h

/-- The loop gives the vector of each input if every request is answered. -/
theorem callOllamaEmbeddingsLegacy_answered {i : ℕ} {inputs : List String}
    (h : ∀ call ∈ (callOllamaEmbeddingsLegacy O provider model replies i inputs).2,
      Answered O E call) :
    (callOllamaEmbeddingsLegacy O provider model replies i inputs).1 = .ok (inputs.map E) := by
  induction inputs generalizing i with
  | nil => rfl
  | cons input inputs ih =>
    -- whatever comes of it, the request for `input` is made
    have hmade : legacyCall provider model input (replies i) ∈
        (callOllamaEmbeddingsLegacy O provider model replies i (input :: inputs)).2 := by
      rw [callOllamaEmbeddingsLegacy]
      split <;> simp
    obtain ⟨bytes, hsend, hread⟩ := (h _ hmade).legacy input (get_prompt_legacyCall _ _)
    have hresult : legacyResult O (replies i) = .ok (E input) := legacyResult_of_ok hsend hread
    rw [callOllamaEmbeddingsLegacy, hresult] at h ⊢
    have hrest := ih fun call hcall => h call (List.mem_cons_of_mem _ hcall)
    dsimp only
    rw [hrest, List.map_cons]
    rfl

/-- A request that fails leaves no vectors, also not those before it. -/
theorem callOllamaEmbeddingsLegacy_failed {i : ℕ} {inputs : List String} {call : OllamaCall}
    (hcall : call ∈ (callOllamaEmbeddingsLegacy O provider model replies i inputs).2)
    (hfailed : Failed O call) :
    ∃ e, (callOllamaEmbeddingsLegacy O provider model replies i inputs).1 = .error e := by
  induction inputs generalizing i with
  | nil => cases hcall
  | cons input inputs ih =>
    rw [callOllamaEmbeddingsLegacy] at hcall ⊢
    cases hresult : legacyResult O (replies i) with
    | error e => exact ⟨e, rfl⟩
    | ok embedding =>
      rw [hresult] at hcall
      rcases List.mem_cons.mp hcall with rfl | hcall
      · obtain ⟨bytes, hsend, hread⟩ := legacyResult_ok hresult
        exact absurd hread (hfailed bytes embedding hsend)
      · obtain ⟨e, he⟩ := ih hcall
        dsimp only
        exact ⟨e, by rw [he]; rfl⟩

theorem answered_embedCall {inputs : List String} {reply : Reply}
    (h : (∃ bytes, send reply = .ok bytes ∧ O.embeddings bytes = .ok (inputs.map E)) ∨
      ∃ body, reply = .answered 404 body) :
    Answered O E (embedCall provider model inputs reply) where
  batch inputs' h' := by
    rw [get_input_embedCall] at h'
    obtain rfl : inputs = inputs' := List.map_injective_iff.mpr (fun _ _ => Value.string.inj)
      (Value.array.inj (Option.some.inj h'))
    exact h
  legacy prompt h' := by
    rw [get_prompt_embedCall] at h'
    cases h'

theorem answered_legacyCall {input : String} {reply : Reply} {bytes : List UInt8}
    (hsend : send reply = .ok bytes) (hread : O.embedding bytes = .ok (E input)) :
    Answered O E (legacyCall provider model input reply) where
  batch inputs h' := by
    rw [get_input_legacyCall] at h'
    cases h'
  legacy prompt h' := by
    rw [get_prompt_legacyCall] at h'
    obtain rfl : input = prompt := Value.string.inj (Option.some.inj h')
    exact ⟨bytes, hsend, hread⟩

/-- Both paths give the vector of each input. -/
theorem callOllama_answered {inputs : List String}
    (h : ∀ call ∈ (callOllama O provider model inputs replies).2, Answered O E call) :
    (callOllama O provider model inputs replies).1 = .ok (inputs.map E) := by
  have hfirst := (h _ (callOllama_calls inputs).1).batch inputs (get_input_embedCall _ _)
  rw [callOllama] at h ⊢
  rcases hfirst with ⟨bytes, hsend, hread⟩ | ⟨body, hreply⟩
  · rw [show embedResult O (replies 0) = .ok (inputs.map E) from embedResult_of_ok hsend hread]
  · have hmissing : embedResult O (replies 0) = .error .notFound := by
      rw [show replies 0 = .answered 404 body from hreply, embedResult_notFound]
    rw [hmissing] at h ⊢
    exact callOllamaEmbeddingsLegacy_answered fun call hcall =>
      h call (List.mem_cons_of_mem _ hcall)

/-- A failing request of the fallback path fails the whole. -/
theorem callOllama_failed {inputs : List String} {call : OllamaCall} {prompt : String}
    (hcall : call ∈ (callOllama O provider model inputs replies).2)
    (hprompt : call.body.get "prompt" = some (.string prompt)) (hfailed : Failed O call) :
    ∃ e, (callOllama O provider model inputs replies).1 = .error e := by
  -- only the fallback path asks with a prompt
  have hother : call ≠ embedCall provider model inputs (replies 0) := by
    rintro rfl
    rw [get_prompt_embedCall] at hprompt
    cases hprompt
  unfold callOllama at hcall ⊢
  dsimp only at hcall ⊢
  split at hcall
  · exact callOllamaEmbeddingsLegacy_failed ((List.mem_cons.mp hcall).resolve_left hother) hfailed
  · exact absurd (List.mem_singleton.mp hcall) hother

end Calls

/-! ## The handler -/

theorem embeddingsResponse_eq_ok_iff {model : String} {inputCount : ℕ}
    {result : Except EmbeddingProviderError (List (List F64))} {response : EmbeddingsResponse} :
    embeddingsResponse model inputCount result = .ok response ↔
      ∃ embeddings, result = .ok embeddings ∧ embeddings.length = inputCount ∧
        (∀ e ∈ embeddings, e ≠ []) ∧
        response =
          { object := "list", model, promptTokens := 0, totalTokens := 0
            data := embeddings.zipIdx.map fun e =>
              { object := "embedding", index := e.2, embedding := e.1 } } := by
  cases result with
  | error e => cases e <;> simp [embeddingsResponse]
  | ok embeddings =>
    rw [embeddingsResponse]
    split_ifs with hlength hempty
    · simp [hlength]
    · have hnot : ¬ ∀ e ∈ embeddings, e ≠ [] := by simpa using hempty
      simp [hnot]
    · have hnil : [] ∉ embeddings := by simpa using hempty
      have hall : ∀ e ∈ embeddings, e ≠ [] := fun e he h => hnil (h ▸ he)
      rw [not_not] at hlength
      constructor
      · intro h
        exact ⟨embeddings, rfl, hlength, hall, (Except.ok.inj h).symm⟩
      · rintro ⟨_, hok, -, -, rfl⟩
        cases hok
        rfl

/-- An accepted request is answered with what Ollama gives. -/
theorem embeddingsHandler_of_provider {O : OllamaJson} {providers : List ProviderConfig}
    {provider : ProviderConfig} {replies : ℕ → Reply} {req : EmbeddingsRequest}
    (hvalid : validateEmbeddingsRequest req = .ok ())
    (hprovider : ollamaProvider providers = some provider) :
    embeddingsHandler O providers replies req =
      let model := req.model.getD ""
      let inputs := (req.input.map (·.intoVec)).getD []
      (embeddingsResponse model inputs.length (callOllama O provider model inputs replies).1,
        (callOllama O provider model inputs replies).2) := by
  simp only [embeddingsHandler, hvalid, hprovider]

/-- For an accepted request: a response has one entry for each input, numbered in order,
    with no empty vector; an Ollama that embeds with `E` leads to the vector of each
    input, with the batch endpoint or without it; and a failing request of the fallback
    path fails the whole. -/
theorem embeddingsHandler_response {O : OllamaJson} {providers : List ProviderConfig}
    {replies : ℕ → Reply} {req : EmbeddingsRequest}
    (hvalid : validateEmbeddingsRequest req = .ok ()) :
    let inputs := (req.input.map (·.intoVec)).getD []
    let run := embeddingsHandler O providers replies req
    (∀ response, run.1 = .ok response →
      response.data.map (·.index) = List.range inputs.length ∧
        ∀ entry ∈ response.data, entry.embedding ≠ []) ∧
    (∀ E : String → List F64, (∀ input, E input ≠ []) →
      (∃ provider, ollamaProvider providers = some provider) →
      (∀ call ∈ run.2, Answered O E call) →
      run.1 = .ok
        { object := "list", model := req.model.getD "", promptTokens := 0, totalTokens := 0
          data := inputs.zipIdx.map fun e =>
            { object := "embedding", index := e.2, embedding := E e.1 } }) ∧
    (∀ call ∈ run.2, ∀ prompt, call.body.get "prompt" = some (.string prompt) →
      Failed O call → ∃ e, run.1 = .error e) := by
  intro inputs run
  cases hprovider : ollamaProvider providers with
  | none =>
    have hrun : run = (.error (.serviceUnavailable
        "No Ollama provider configured for embeddings."), []) := by
      simp only [run, embeddingsHandler, hvalid, hprovider]
    simp [hrun]
  | some provider =>
    rw [show run = _ from embeddingsHandler_of_provider hvalid hprovider]
    refine ⟨fun response h => ?_, fun E hE _ h => ?_, fun call hcall prompt hprompt hfailed => ?_⟩
    · obtain ⟨embeddings, -, hlength, hall, rfl⟩ := embeddingsResponse_eq_ok_iff.mp h
      refine ⟨?_, List.forall_mem_map.mpr fun e he => hall _ (List.fst_mem_of_mem_zipIdx he)⟩
      rw [List.map_map, ← hlength, List.range_eq_range']
      exact List.zipIdx_map_snd 0 embeddings
    · refine embeddingsResponse_eq_ok_iff.mpr ⟨inputs.map E, callOllama_answered h,
        List.length_map _, by simpa using fun input _ => hE input, ?_⟩
      rw [List.zipIdx_map, List.map_map]
      rfl
    · obtain ⟨e, he⟩ := callOllama_failed hcall hprompt hfailed
      dsimp only
      rw [he]
      cases e with
      | notFound => exact ⟨_, rfl⟩
      | gateway e => exact ⟨e, rfl⟩

/-- Two inputs: an Ollama with the batch endpoint and one without it lead to one
    response. -/
theorem embeddingsHandler_response_two :
    let E : String → List F64 := fun s => if s = "a" then [.finite 1] else [.finite 2]
    let O : OllamaJson :=
      { embeddings := fun _ => .ok [[.finite 1], [.finite 2]]
        embedding := fun bytes => .ok (if bytes = [97] then [.finite 1] else [.finite 2]) }
    let req : EmbeddingsRequest := { model := some "m", input := some (.multiple ["a", "b"]) }
    let providers : List ProviderConfig := [⟨"o", "ollama", "http://o/", "", 30⟩]
    let batch : ℕ → Reply := fun _ => .answered 200 (.complete [] "")
    let legacy : ℕ → Reply := fun i =>
      if i = 0 then .answered 404 (.complete [] "")
      else .answered 200 (.complete [(96 + i).toUInt8] "")
    let response : EmbeddingsResponse :=
      { object := "list", model := "m", promptTokens := 0, totalTokens := 0
        data := [⟨"embedding", 0, E "a"⟩, ⟨"embedding", 1, E "b"⟩] }
    (embeddingsHandler O providers batch req).1 = .ok response ∧
      (embeddingsHandler O providers legacy req).1 = .ok response ∧
      (embeddingsHandler O providers legacy req).2.length = 3 := by
  intro E O req providers batch legacy response
  have hvalid : validateEmbeddingsRequest req = .ok () := by decide
  have hE : ∀ input, E input ≠ [] := by
    intro input
    simp only [E]
    split <;> simp
  have hprovider : ∃ provider, ollamaProvider providers = some provider := ⟨_, rfl⟩
  refine ⟨(embeddingsHandler_response hvalid).2.1 E hE hprovider ?_,
    (embeddingsHandler_response hvalid).2.1 E hE hprovider ?_, rfl⟩
  · have hcalls : (embeddingsHandler O providers batch req).2 =
        [embedCall ⟨"o", "ollama", "http://o/", "", 30⟩ "m" ["a", "b"] (batch 0)] := rfl
    rw [hcalls]
    exact List.forall_mem_singleton.mpr (answered_embedCall (.inl ⟨[], rfl, rfl⟩))
  · have hcalls : (embeddingsHandler O providers legacy req).2 =
        [embedCall ⟨"o", "ollama", "http://o/", "", 30⟩ "m" ["a", "b"] (legacy 0),
          legacyCall ⟨"o", "ollama", "http://o/", "", 30⟩ "m" "a" (legacy 1),
          legacyCall ⟨"o", "ollama", "http://o/", "", 30⟩ "m" "b" (legacy 2)] := rfl
    rw [hcalls]
    refine List.forall_mem_cons.mpr ⟨answered_embedCall (.inr ⟨_, rfl⟩), ?_⟩
    refine List.forall_mem_cons.mpr ⟨answered_legacyCall rfl rfl, ?_⟩
    exact List.forall_mem_singleton.mpr (answered_legacyCall rfl rfl)

end Melis.Embeddings
