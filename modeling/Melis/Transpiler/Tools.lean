import Melis.Transpiler.Anthropic

/-!
# Tools of an Anthropic request

`AnthropicTranspiler::to_native` carries the tools of a request over in order. Its
translation of `tool_choice` is documented to produce `{type:"auto"}`, `{type:"any"}`
or `{type:"tool", name}`, but no case of it produces `any`: `"required"` becomes
`auto`, which leaves the model free to call no tool.

* `get_nativeEntries_tools`, `get_nativeEntries_toolChoice`: the two entries of the
  native request.
* `convertToolsToNative_forall₂`: each tool becomes one, in order.
* `obligation_convertToolChoice_iff`: what the translation does to the obligation.
* `keepsTools_iff`: tools and obligation are kept exactly when the choice is not
  `"required"`.
* `not_forall_keepsTools`: they are not always.
-/

namespace Melis.Transpiler.Anthropic

/-! ## What a choice obliges the model to -/

/-- What a `tool_choice` asks of the model: nothing, a call of some tool, or a call of
    the tool with a given name. -/
inductive Obligation where
  | free
  | someTool
  | tool (name : Value)

/-- The obligation of an OpenAI `tool_choice`: `"required"` asks for some tool, an
    object that names a function for that one. -/
def Obligation.ofOpenAi : Option Value → Obligation
  | some (.string s) => if s == "required" then .someTool else .free
  | some (.object es) =>
    match (Entries.get es "function").bind fun f => f.get "name" with
    | some name => .tool name
    | none => .free
  | _ => .free

/-- The obligation of an Anthropic `tool_choice`. -/
def Obligation.ofAnthropic (toolChoice : Option Value) : Obligation :=
  let type := (toolChoice.bind fun c => c.get "type").bind Value.asStr
  if type == some "any" then .someTool
  else if type == some "tool" then
    .tool ((toolChoice.bind fun c => c.get "name").getD .null)
  else .free

theorem ofAnthropic_auto :
    Obligation.ofAnthropic (some (.json [("type", .string "auto")])) = .free := by
  simp [Obligation.ofAnthropic, Value.get_json, Entries.get_cons, Value.asStr]

theorem ofAnthropic_tool (name : Value) :
    Obligation.ofAnthropic (some (.json [("type", .string "tool"), ("name", name)])) =
      .tool name := by
  simp [Obligation.ofAnthropic, Value.get_json, Entries.get_cons, Value.asStr]

/-- The translation keeps the obligation of every choice but `"required"`. -/
theorem obligation_convertToolChoice_iff (toolChoice : Option Value) :
    Obligation.ofAnthropic (toolChoice.map convertToolChoiceToNative) =
        Obligation.ofOpenAi toolChoice ↔
      toolChoice ≠ some (.string "required") := by
  match toolChoice with
  | none => exact iff_of_true rfl (by simp)
  | some .null | some (.bool _) | some (.number _) | some (.array _) =>
    exact iff_of_true rfl (by simp)
  | some (.string s) =>
    have hauto : convertToolChoiceToNative (.string s) = .json [("type", .string "auto")] := rfl
    rw [Option.map_some, hauto, ofAnthropic_auto, Obligation.ofOpenAi]
    by_cases hs : s = "required"
    · simp [hs]
    · simp [hs]
  | some (.object es) =>
    refine iff_of_true ?_ (by simp)
    rw [Option.map_some, convertToolChoiceToNative, Obligation.ofOpenAi, Value.get_object]
    cases (Entries.get es "function").bind fun f => f.get "name" with
    | none => exact ofAnthropic_auto
    | some name => exact ofAnthropic_tool name

/-! ## The entries of the native request -/

/-- `native` is the tool `t` of the client: its name, description and parameters, or
    their defaults. -/
def IsTool (t native : Value) : Prop :=
  ∃ function, t.get "function" = some function ∧
    native.get "name" = some ((function.get "name").getD .null) ∧
    native.get "description" = some ((function.get "description").getD (.string "")) ∧
    native.get "input_schema" = some ((function.get "parameters").getD
      (.json [("type", .string "object"), ("properties", .json [])]))

/-- Each tool with a function becomes one, in order. -/
theorem convertToolsToNative_forall₂ {tools : List Value}
    (h : ∀ t ∈ tools, ∃ function, t.get "function" = some function) :
    List.Forall₂ IsTool tools (convertToolsToNative tools) := by
  induction tools with
  | nil => exact List.Forall₂.nil
  | cons t tools ih =>
    obtain ⟨⟨function, hfunction⟩, htools⟩ := List.forall_mem_cons.mp h
    rw [convertToolsToNative, List.filterMap_cons_some (by rw [hfunction, Option.map_some])]
    refine List.Forall₂.cons ⟨function, hfunction, ?_⟩ (ih htools)
    simp [Value.get_json, Entries.get_cons]

section NativeEntries

variable (J : SerdeJson) {obj : Entries} {messages tools : List Value} {model : Value}

theorem get_insertTools_tools (native : Entries)
    (htools : Entries.get obj "tools" = some (.array tools)) (hne : tools ≠ []) :
    Entries.get (insertTools obj native) "tools" =
      some (.array (convertToolsToNative tools)) := by
  obtain ⟨t, tools, rfl⟩ := List.exists_cons_of_ne_nil hne
  rw [insertTools, htools]
  change Entries.get (insertSome "tool_choice" _ (Entries.insert "tools" _ native)) "tools" = _
  rw [get_insertSome_of_ne (by decide), Entries.get_insert_self]

theorem get_insertTools_toolChoice {native : Entries}
    (htools : Entries.get obj "tools" = some (.array tools)) (hne : tools ≠ [])
    (hnative : Entries.get native "tool_choice" = none) :
    Entries.get (insertTools obj native) "tool_choice" =
      (Entries.get obj "tool_choice").map convertToolChoiceToNative := by
  obtain ⟨t, tools, rfl⟩ := List.exists_cons_of_ne_nil hne
  rw [insertTools, htools]
  change Entries.get (insertSome "tool_choice" _ (Entries.insert "tools" _ native)) _ = _
  cases Entries.get obj "tool_choice" with
  | some c => exact Entries.get_insert_self _ _ _
  | none =>
    rw [Option.map_none, insertSome, Entries.get_insert_of_ne _ _ (by decide), hnative]

theorem get_nativeEntries_tools (htools : Entries.get obj "tools" = some (.array tools))
    (hne : tools ≠ []) :
    Entries.get (nativeEntries J obj messages model) "tools" =
      some (.array (convertToolsToNative tools)) :=
  get_insertTools_tools _ htools hne

/-- None of the entries before the tools is a `tool_choice`. -/
theorem get_nativeEntries_toolChoice (htools : Entries.get obj "tools" = some (.array tools))
    (hne : tools ≠ []) :
    Entries.get (nativeEntries J obj messages model) "tool_choice" =
      (Entries.get obj "tool_choice").map convertToolChoiceToNative := by
  refine get_insertTools_toolChoice htools hne ?_
  rw [get_insertSome_of_ne (by decide), get_insertSome_of_ne (by decide),
    get_insertSome_of_ne (by decide), Entries.get_insert_of_ne _ _ (by decide),
    Entries.get_insert_of_ne _ _ (by decide), get_insertSome_of_ne (by decide),
    Entries.get_insert_of_ne _ _ (by decide), Entries.get_nil]

end NativeEntries

/-- A request that is translated is an object, and its translation has the native
    entries. -/
theorem exists_of_toNative_ok {J : SerdeJson} {request native : Value}
    (h : toNative J request = .ok native) :
    ∃ obj messages model, request = .object obj ∧
      native = .object (nativeEntries J obj messages model) := by
  cases request with
  | object obj =>
    rw [toNative, Value.asObject] at h
    dsimp only at h
    split at h
    · cases h
    split at h
    · cases h
    · exact ⟨obj, _, _, rfl, (Except.ok.inj h).symm⟩
  | _ => cases h

/-! ## Tools and obligation -/

/-- The native request has the client's tools, in order, and its choice obliges the
    model to what the client's does. -/
structure KeepsTools (request native : Value) (tools : List Value) : Prop where
  tools : ∃ nativeTools, native.get "tools" = some (.array nativeTools) ∧
    List.Forall₂ IsTool tools nativeTools
  choice : Obligation.ofAnthropic (native.get "tool_choice") =
    Obligation.ofOpenAi (request.get "tool_choice")

/-- **Tools and obligation are kept exactly when** the request does not leave the choice
    of the tool to the model while requiring one. -/
theorem keepsTools_iff {J : SerdeJson} {request native : Value} {tools : List Value}
    (hok : toNative J request = .ok native) (htools : request.get "tools" = some (.array tools))
    (hne : tools ≠ []) (hfunction : ∀ t ∈ tools, ∃ function, t.get "function" = some function) :
    KeepsTools request native tools ↔
      request.get "tool_choice" ≠ some (.string "required") := by
  obtain ⟨obj, messages, model, rfl, rfl⟩ := exists_of_toNative_ok hok
  rw [Value.get_object] at htools
  have hchoice : Entries.get (nativeEntries J obj messages model) "tool_choice" =
      (Entries.get obj "tool_choice").map convertToolChoiceToNative :=
    get_nativeEntries_toolChoice J htools hne
  rw [Value.get_object, ← obligation_convertToolChoice_iff, ← hchoice]
  constructor
  · exact fun h => h.choice
  · intro h
    exact ⟨⟨_, get_nativeEntries_tools J htools hne, convertToolsToNative_forall₂ hfunction⟩, h⟩

/-! ## A required tool -/

/-- The tool `emit_code`. -/
def emitCode : Value :=
  .json [("type", .string "function"), ("function", .json [("name", .string "emit_code")])]

/-- A request with the tool `emit_code`. -/
def emitCodeRequest (toolChoice : Value) : Value :=
  .json [("model", .string "claude"), ("messages", .array []), ("tool_choice", toolChoice),
    ("tools", .array [emitCode])]

/-- The tool is called by its name. -/
theorem keepsTools_named :
    ∃ native, toNative (SerdeJson.ofTable []) (emitCodeRequest emitCode) = .ok native ∧
      KeepsTools (emitCodeRequest emitCode) native [emitCode] := by
  refine ⟨_, rfl, (keepsTools_iff rfl rfl (List.cons_ne_nil _ _) fun t ht => ?_).mpr ?_⟩
  · obtain rfl := List.mem_singleton.mp ht
    exact ⟨_, rfl⟩
  · exact fun h => by cases h

/-- Where a tool is required, the native request leaves the model free. -/
theorem not_forall_keepsTools :
    ¬ ∀ (J : SerdeJson) (request native : Value) (tools : List Value),
      toNative J request = .ok native → request.get "tools" = some (.array tools) →
      tools ≠ [] → (∀ t ∈ tools, ∃ function, t.get "function" = some function) →
      KeepsTools request native tools := by
  intro h
  have hkeeps := h (SerdeJson.ofTable []) (emitCodeRequest (.string "required")) _ [emitCode] rfl
    rfl (List.cons_ne_nil _ _) fun t ht => by
      obtain rfl := List.mem_singleton.mp ht
      exact ⟨_, rfl⟩
  have hsome : Obligation.ofAnthropic (some (.json [("type", .string "auto")])) = .someTool :=
    hkeeps.choice
  rw [ofAnthropic_auto] at hsome
  cases hsome

end Melis.Transpiler.Anthropic
