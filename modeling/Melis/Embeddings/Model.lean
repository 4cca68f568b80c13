import Melis.Client.Model
import Melis.Common.Error
import Melis.Common.Json
import Melis.Common.Lines
import Melis.Config.Basic

/-!
# The embeddings endpoint (`embeddings.rs`)

`POST /v1/embeddings` asks the first Ollama provider of the configuration, with the
batch endpoint first and, where that does not exist, once for each input. Metrics are
left out. The typed JSON functions that serde generates are the parameter
`OllamaJson`.

* `embeddingsHandler_calls`: every upstream request names the client's model.
-/

namespace Melis.Embeddings

open Client

/-! ## Requests and responses -/

/-- `EmbeddingsInput` (lines 33–39). -/
inductive EmbeddingsInput where
  | single (s : String)
  | multiple (v : List String)
deriving DecidableEq

/-- `EmbeddingsInput::into_vec` (lines 43–48). -/
def EmbeddingsInput.intoVec : EmbeddingsInput → List String
  | single s => [s]
  | multiple v => v

/-- `EmbeddingsInput::is_empty` (lines 51–56). -/
def EmbeddingsInput.isEmpty : EmbeddingsInput → Bool
  | single s => Text.isEmpty s
  | multiple v => v.isEmpty || v.all Text.isEmpty

/-- `EmbeddingsRequest` (lines 17–31), without `dimensions` and `user`, which are not
    read. -/
structure EmbeddingsRequest where
  model : Option String
  input : Option EmbeddingsInput
  encodingFormat : Option String := none
deriving DecidableEq

/-- `EmbeddingData` (lines 68–74). -/
structure EmbeddingData where
  object : String
  index : ℕ
  embedding : List F64
deriving DecidableEq

/-- `EmbeddingsResponse` (lines 59–66), with the fields of its `usage`. -/
structure EmbeddingsResponse where
  object : String
  data : List EmbeddingData
  model : String
  promptTokens : ℕ
  totalTokens : ℕ
deriving DecidableEq

/-- `serde_json::from_slice` for `OllamaEmbedResponse` and for
    `OllamaEmbeddingsLegacyResponse`: the vectors, or the error's text. -/
structure OllamaJson where
  embeddings : List UInt8 → Except String (List (List F64))
  embedding : List UInt8 → Except String (List F64)

/-- `validate_embeddings_request` (lines 117–160). -/
def validateEmbeddingsRequest (req : EmbeddingsRequest) : Except GatewayError Unit :=
  match req.model with
  | none => .error (.badRequest "Field 'model' is required and must be a non-empty string.")
  | some m =>
    if Text.isEmpty m then .error (.badRequest "Field 'model' must not be empty.")
    else
      match req.input with
      | none => .error (.badRequest "Field 'input' is required.")
      | some input =>
        if input.isEmpty then .error (.badRequest "Field 'input' must not be empty.")
        else
          match req.encodingFormat with
          | none => .ok ()
          | some fmt =>
            if fmt != "float" then
              .error (.badRequest ("encoding_format '" ++ fmt ++
                "' is not supported. Only 'float' is supported."))
            else .ok ()

/-! ## Calls to Ollama -/

/-- A request to Ollama, and what comes back. -/
structure OllamaCall where
  url : String
  body : Value
  timeout : Duration
  reply : Reply

/-- `EmbeddingProviderError` (lines 293–299). -/
inductive EmbeddingProviderError where
  | notFound
  | gateway (e : GatewayError)
deriving DecidableEq

/-- `base_url.trim_end_matches('/')`. -/
def trimEndSlashes (baseUrl : String) : String :=
  String.ofList (baseUrl.toList.rdropWhile (· == '/'))

section Calls

variable (O : OllamaJson) (provider : ProviderConfig) (model : String)

/-- The request of `call_ollama_embed` (lines 309–327). -/
def embedCall (inputs : List String) (reply : Reply) : OllamaCall where
  url := trimEndSlashes provider.baseUrl ++ "/api/embed"
  body := .json [("model", .string model), ("input", .array (inputs.map .string))]
  timeout := provider.timeout
  reply := reply

/-- What `call_ollama_embed` makes of the reply (lines 329–353). -/
def embedResult (reply : Reply) : Except EmbeddingProviderError (List (List F64)) :=
  match send reply with
  | .ok responseBytes =>
    match O.embeddings responseBytes with
    | .ok embeddings => .ok embeddings
    | .error e =>
      .error (.gateway (.providerError s!"Failed to parse Ollama /api/embed response: {e}"))
  | .error (.httpError 404 _) => .error .notFound
  | .error .timeout =>
    .error (.gateway (.serviceUnavailable "Ollama timeout on /api/embed"))
  | .error e => .error (.gateway (.serviceUnavailable s!"Ollama unavailable: {e.display}"))

/-- A request of `call_ollama_embeddings_legacy` (lines 364–384). -/
def legacyCall (input : String) (reply : Reply) : OllamaCall where
  url := trimEndSlashes provider.baseUrl ++ "/api/embeddings"
  body := .json [("model", .string model), ("prompt", .string input)]
  timeout := provider.timeout
  reply := reply

/-- What `call_ollama_embeddings_legacy` makes of one reply (lines 386–413). -/
def legacyResult (reply : Reply) : Except EmbeddingProviderError (List F64) :=
  match send reply with
  | .ok responseBytes =>
    match O.embedding responseBytes with
    | .ok embedding => .ok embedding
    | .error e =>
      .error (.gateway (.providerError s!"Failed to parse Ollama /api/embeddings response: {e}"))
  | .error .timeout =>
    .error (.gateway (.serviceUnavailable "Ollama timeout on /api/embeddings"))
  | .error e => .error (.gateway (.serviceUnavailable s!"Ollama unavailable: {e.display}"))

/-- The loop of `call_ollama_embeddings_legacy` (lines 357–417). `replies i` answers
    the next request. -/
def callOllamaEmbeddingsLegacy (replies : ℕ → Reply) :
    ℕ → List String → Except EmbeddingProviderError (List (List F64)) × List OllamaCall
  | _, [] => (.ok [], [])
  | i, input :: inputs =>
    let call := legacyCall provider model input (replies i)
    match legacyResult O (replies i) with
    | .error e => (.error e, [call])
    | .ok embedding =>
      let (results, calls) := callOllamaEmbeddingsLegacy replies (i + 1) inputs
      (results.map (embedding :: ·), call :: calls)

/-- `embeddings` (lines 207–223), before the errors are told apart. -/
def callOllama (inputs : List String) (replies : ℕ → Reply) :
    Except EmbeddingProviderError (List (List F64)) × List OllamaCall :=
  let call := embedCall provider model inputs (replies 0)
  match embedResult O (replies 0) with
  | .error .notFound =>
    let (embeddings, calls) := callOllamaEmbeddingsLegacy O provider model replies 1 inputs
    (embeddings, call :: calls)
  | embeddings => (embeddings, [call])

end Calls

/-! ## The handler -/

/-- The response, once Ollama has answered (lines 207–265). -/
def embeddingsResponse (model : String) (inputCount : ℕ) :
    Except EmbeddingProviderError (List (List F64)) → Except GatewayError EmbeddingsResponse
  | .error .notFound =>
    .error (.serviceUnavailable "Ollama does not support embeddings endpoints.")
  | .error (.gateway e) => .error e
  | .ok embeddings =>
    if embeddings.length ≠ inputCount then
      .error (.providerError
        s!"Provider returned {embeddings.length} embeddings for {inputCount} inputs")
    else if embeddings.any List.isEmpty then
      .error (.providerError "Provider returned empty embedding vector.")
    else
      .ok { object := "list", model, promptTokens := 0, totalTokens := 0
            data := embeddings.zipIdx.map fun e =>
              { object := "embedding", index := e.2, embedding := e.1 } }

/-- `provider_config` (lines 192–201). -/
def ollamaProvider (providers : List ProviderConfig) : Option ProviderConfig :=
  providers.find? fun p => p.providerType == "ollama"

/-- `embeddings_handler` (lines 172–289), with the requests it makes. -/
def embeddingsHandler (O : OllamaJson) (providers : List ProviderConfig) (replies : ℕ → Reply)
    (req : EmbeddingsRequest) : Except GatewayError EmbeddingsResponse × List OllamaCall :=
  match validateEmbeddingsRequest req with
  | .error e => (.error e, [])
  | .ok () =>
    let model := req.model.getD ""
    let inputs := (req.input.map (·.intoVec)).getD []
    match ollamaProvider providers with
    | none =>
      (.error (.serviceUnavailable "No Ollama provider configured for embeddings."), [])
    | some provider =>
      let (embeddings, calls) := callOllama O provider model inputs replies
      (embeddingsResponse model inputs.length embeddings, calls)

/-! ## The model that is asked -/

section Model

variable {O : OllamaJson} {provider : ProviderConfig} {model : String} {replies : ℕ → Reply}

theorem get_embedCall (inputs : List String) (reply : Reply) :
    (embedCall provider model inputs reply).body.get "model" = some (.string model) := by
  simp [embedCall, Value.get_json, Entries.get_cons]

theorem get_legacyCall (input : String) (reply : Reply) :
    (legacyCall provider model input reply).body.get "model" = some (.string model) := by
  simp [legacyCall, Value.get_json, Entries.get_cons]

theorem legacy_calls {i : ℕ} {inputs : List String} {call : OllamaCall}
    (h : call ∈ (callOllamaEmbeddingsLegacy O provider model replies i inputs).2) :
    call.body.get "model" = some (.string model) := by
  induction inputs generalizing i with
  | nil => cases h
  | cons input inputs ih =>
    rw [callOllamaEmbeddingsLegacy] at h
    split at h
    · rw [List.mem_singleton.mp h]
      exact get_legacyCall _ _
    · rcases List.mem_cons.mp h with rfl | h
      · exact get_legacyCall _ _
      · exact ih h

/-- Ollama is always asked once with the batch endpoint, and every request names the
    model. -/
theorem callOllama_calls (inputs : List String) :
    embedCall provider model inputs (replies 0) ∈
        (callOllama O provider model inputs replies).2 ∧
      ∀ call ∈ (callOllama O provider model inputs replies).2,
        call.body.get "model" = some (.string model) := by
  unfold callOllama
  dsimp only
  split
  · refine ⟨List.mem_cons_self, List.forall_mem_cons.mpr ⟨get_embedCall _ _, fun call h => ?_⟩⟩
    exact legacy_calls h
  · exact ⟨List.mem_cons_self, List.forall_mem_singleton.mpr (get_embedCall _ _)⟩

/-- Accepted requests with an Ollama provider lead to requests that name the client's
    model; others lead to none. -/
theorem embeddingsHandler_calls {providers : List ProviderConfig} {req : EmbeddingsRequest} :
    (∀ call ∈ (embeddingsHandler O providers replies req).2,
      call.body.get "model" = some (.string (req.model.getD ""))) ∧
    ((embeddingsHandler O providers replies req).2 ≠ [] ↔
      validateEmbeddingsRequest req = .ok () ∧ ∃ p, ollamaProvider providers = some p) := by
  unfold embeddingsHandler
  cases hvalid : validateEmbeddingsRequest req with
  | error e => simp
  | ok _ =>
    cases hprovider : ollamaProvider providers with
    | none => simp
    | some provider =>
      obtain ⟨hfirst, hall⟩ := @callOllama_calls O provider (req.model.getD "") replies
        ((req.input.map (·.intoVec)).getD [])
      exact ⟨hall, iff_of_true (List.ne_nil_of_mem hfirst) ⟨rfl, provider, rfl⟩⟩

end Model

end Melis.Embeddings
