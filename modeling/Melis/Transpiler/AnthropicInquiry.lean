import Melis.Transpiler.Inquiry

/-!
# What Anthropic is asked

`AnthropicTranspiler::to_native` and `VertexAnthropicTranspiler::to_native` keep what
a request asks, with the exceptions that `Inquiry.forAnthropic` lists.

* `turnsOfAnthropic_convertMessage`: one message.
* `toNative_inquiry`: a whole request.
-/

namespace Melis.Transpiler

open Anthropic (Obligation)

/-! ## Reading -/

/-- A tool of Anthropic. -/
def toolOfAnthropic (t : Value) : Option Tool := do
  let name ← t.get "name"
  let description ← t.get "description"
  let parameters ← t.get "input_schema"
  return { name, description, parameters }

/-- A content block of Anthropic. Only the assistant calls tools, and only the user
    sends results. -/
def turnsOfBlock (speaker : Speaker) (block : Value) : Option (List Utterance) := do
  let type ← Anthropic.blockType block
  if type = "text" then
    let text ← (block.get "text").bind Value.asStr
    return saying speaker text
  else if type = "tool_use" ∧ speaker = .assistant then
    let id ← (block.get "id").bind Value.asStr
    let name ← (block.get "name").bind Value.asStr
    let input ← block.get "input"
    return [.call id name input]
  else if type = "tool_result" ∧ speaker = .user then
    let id ← (block.get "tool_use_id").bind Value.asStr
    let text ← readText (block.get "content")
    return [.result id text]
  else none

/-- The content of a message of Anthropic: blocks, or a text. -/
def turnsOfContent (speaker : Speaker) : Option Value → Option (List Utterance)
  | some (.array blocks) => (blocks.mapM (turnsOfBlock speaker)).map List.flatten
  | content => (readText content).map (saying speaker)

/-- A message of Anthropic. -/
def turnsOfAnthropic (msg : Value) : Option (List Utterance) := do
  let role ← Anthropic.role msg
  if role = "user" then turnsOfContent .user (msg.get "content")
  else if role = "assistant" then turnsOfContent .assistant (msg.get "content")
  else none

/-- The keys of a request to Anthropic that are read one by one, and the version that
    Vertex AI asks for. -/
def anthropicKeys : List String :=
  ["model", "system", "messages", "max_tokens", "temperature", "top_p", "stop_sequences",
    "stream", "tools", "tool_choice", "anthropic_version"]

/-- A request to Anthropic. -/
def Inquiry.ofAnthropic (request : Value) : Option Inquiry := do
  let messages ← (request.get "messages").bind Value.asArray
  let system ← readText (request.get "system")
  let turns ← messages.mapM turnsOfAnthropic
  let maxTokens ← readCount (request.get "max_tokens")
  let stops ← readList (request.get "stop_sequences")
  let entries ← readList (request.get "tools")
  let tools ← entries.mapM toolOfAnthropic
  return { model := request.get "model", system, turns := turns.flatten, maxTokens
           temperature := request.get "temperature", topP := request.get "top_p", stops
           stream := request.get "stream", tools
           toolUse := .obliged
             (if tools.isEmpty then .free else .ofAnthropic (request.get "tool_choice"))
           others := otherEntries anthropicKeys request }

/-! ## Messages -/

section Messages

variable {J : SerdeJson} {msg : Value} {turns : List Utterance}

/-- A call becomes the block of a call. -/
theorem turnsOfBlock_toolUseBlock {tc : Value} {turn : Utterance}
    (h : callOfOpenAi J tc = some turn) :
    turnsOfBlock .assistant (Anthropic.toolUseBlock J tc) = some [turn] := by
  obtain ⟨id, hid, h⟩ := Option.bind_eq_some_iff.mp h
  obtain ⟨function, hfunction, h⟩ := Option.bind_eq_some_iff.mp h
  obtain ⟨name, hname, h⟩ := Option.bind_eq_some_iff.mp h
  obtain ⟨arguments, harguments, h⟩ := Option.bind_eq_some_iff.mp h
  obtain ⟨input, hinput, h⟩ := Option.bind_eq_some_iff.mp h
  obtain rfl := Option.some.inj h
  simp [turnsOfBlock, Anthropic.toolUseBlock, Anthropic.blockType, Value.get_json,
    Entries.get_cons, asStr_string, hid, hfunction, hname, harguments, hinput]

theorem readText_getD_null (v : Option Value) : readText (some (v.getD .null)) = readText v := by
  cases v <;> rfl

/-- The blocks of an assistant message with tool calls. -/
theorem turnsOfContent_toolCallBlocks {text : String} {toolCalls : List Value}
    {calls : List Utterance}
    (htext : readText (msg.get "content") = some text)
    (hcalls : toolCalls.mapM (callOfOpenAi J) = some calls) :
    turnsOfContent .assistant (some (.array (Anthropic.toolCallBlocks J msg toolCalls))) =
      some (saying .assistant text ++ calls) := by
  have hblocks : (toolCalls.map (Anthropic.toolUseBlock J)).mapM (turnsOfBlock .assistant) =
      some (calls.map ([·])) :=
    mapM_map_eq_some (fun tc turn h => turnsOfBlock_toolUseBlock h) hcalls
  have hflat : (calls.map ([·])).flatten = calls := List.flatMap_singleton' calls
  rcases readText_eq_some htext with hsome | ⟨hnone, rfl⟩
  · by_cases hempty : text = ""
    · simp [turnsOfContent, Anthropic.toolCallBlocks, hsome, saying, hempty, hblocks, hflat,
        Text.isEmpty_iff]
    · simp [turnsOfContent, Anthropic.toolCallBlocks, hsome, saying, hempty, hblocks, hflat,
        Text.isEmpty_iff, turnsOfBlock, Anthropic.blockType, Value.get_json, Entries.get_cons,
        asStr_string]
  · simp [turnsOfContent, Anthropic.toolCallBlocks, hnone, saying, hblocks, hflat]

theorem turnsOfContent_getD_null {v : Option Value} {text : String} (speaker : Speaker)
    (h : readText v = some text) :
    turnsOfContent speaker (some (v.getD .null)) = some (saying speaker text) := by
  rw [← readText_getD_null] at h
  have hnoArray : ∀ blocks, some (v.getD .null) ≠ some (.array blocks) := by
    intro blocks heq
    rw [heq] at h
    cases h
  rw [turnsOfContent]
  · rw [h]
    rfl
  · exact hnoArray

/-- A message without tool calls, for Anthropic. -/
theorem turnsOfAnthropic_plainMessage {text role : String} {speaker : Speaker}
    (htext : readText (msg.get "content") = some text)
    (hrole : role = "user" ∧ speaker = .user ∨ role = "assistant" ∧ speaker = .assistant) :
    turnsOfAnthropic (Anthropic.plainMessage msg role) = some (saying speaker text) := by
  rcases hrole with ⟨rfl, rfl⟩ | ⟨rfl, rfl⟩ <;>
    simp [Anthropic.plainMessage, turnsOfAnthropic, Anthropic.role, Value.get_json,
      Entries.get_cons, asStr_string, turnsOfContent_getD_null _ htext]

/-- A message for Anthropic. -/
theorem turnsOfAnthropic_convertMessage (h : turnsOfOpenAi J msg = some turns) :
    turnsOfAnthropic (Anthropic.convertMessage J msg) = some turns := by
  cases readsMessage_of_turnsOfOpenAi h with
  | user text hrole htext =>
    rw [Anthropic.convertMessage, hrole]
    exact turnsOfAnthropic_plainMessage htext (.inl ⟨rfl, rfl⟩)
  | assistant text toolCalls calls hrole htext htoolCalls hcalls =>
    rw [Anthropic.convertMessage, hrole]
    match toolCalls with
    | [] =>
      obtain rfl : [] = calls := by simpa using hcalls
      rw [List.append_nil]
      have hplain := turnsOfAnthropic_plainMessage htext (.inr ⟨rfl, rfl⟩)
      rcases readList_eq_some htoolCalls with harray | ⟨harray, -⟩
      · rw [harray]
        exact hplain
      · rw [harray]
        exact hplain
    | tc :: toolCalls =>
      obtain harray | ⟨-, hnil⟩ := readList_eq_some htoolCalls
      · rw [harray]
        simp [turnsOfAnthropic, Anthropic.role, Value.get_json, Entries.get_cons, asStr_string,
          turnsOfContent_toolCallBlocks htext hcalls]
      · cases hnil
  | tool id text hrole htext hid =>
    rw [Anthropic.convertMessage, hrole]
    simp [turnsOfAnthropic, turnsOfContent, turnsOfBlock, Anthropic.role, Anthropic.blockType,
      Value.get_json, Entries.get_cons, asStr_string, hid, readText_getD_null, htext]

end Messages

/-! ## Requests -/

/-- What the translation leaves of the tool use: the model is free where it was to call
    some tool, and where it was to call none. -/
def relaxed : ToolUse → ToolUse
  | .forbidden => .obliged .free
  | .obliged .someTool => .obliged .free
  | use => use

/-- What Anthropic is asked: the number of tokens has a default; `top_p` is dropped, the
    duty to call some tool and the prohibition to call any, and every setting without a
    field of its own. -/
def Inquiry.forAnthropic (q : Inquiry) : Inquiry :=
  { q with
    maxTokens := some (q.maxTokens.getD Anthropic.defaultMaxTokens)
    topP := none
    toolUse := relaxed q.toolUse
    others := [] }

theorem toolUse_toNative (choice : Option Value) :
    ToolUse.obliged (.ofAnthropic (choice.map Anthropic.convertToolChoiceToNative)) =
      relaxed (.ofOpenAi choice) := by
  by_cases hrequired : choice = some (.string "required")
  · subst hrequired
    exact congrArg ToolUse.obliged Anthropic.ofAnthropic_auto
  · rw [(Anthropic.obligation_convertToolChoice_iff choice).mpr hrequired, ToolUse.ofOpenAi]
    split_ifs with hnone
    · -- without a duty, a prohibition is read as nothing
      obtain ⟨v, rfl, hv⟩ := Option.bind_eq_some_iff.mp (beq_iff_eq.mp hnone)
      cases v with
      | string s =>
        obtain rfl := Option.some.inj hv
        rfl
      | _ => cases hv
    have hne : Obligation.ofOpenAi choice ≠ .someTool := by
      intro heq
      unfold Obligation.ofOpenAi at heq
      split at heq
      · split_ifs at heq with hs
        exact hrequired (by rw [beq_iff_eq.mp hs])
      · split at heq <;> cases heq
      · cases heq
    cases hchoice : Obligation.ofOpenAi choice with
    | someTool => exact absurd hchoice hne
    | free | tool name => rfl

theorem mapM_convertToolsToNative {entries : List Value} {tools : List Tool}
    (h : entries.mapM toolOfOpenAi = some tools) :
    (Anthropic.convertToolsToNative entries).mapM toolOfAnthropic = some tools := by
  induction entries generalizing tools with
  | nil => exact h
  | cons t entries ih =>
    simp only [List.mapM_cons, Option.pure_def, Option.bind_eq_bind, Option.bind_eq_some_iff,
      Option.some.injEq] at h
    obtain ⟨tool, htool, tools, htools, rfl⟩ := h
    obtain ⟨function, hfunction, htool⟩ := Option.bind_eq_some_iff.mp htool
    obtain rfl := Option.some.inj htool
    rw [Anthropic.convertToolsToNative, List.filterMap_cons_some (by rw [hfunction]; rfl),
      ← Anthropic.convertToolsToNative]
    simp [toolOfAnthropic, Value.get_json, Entries.get_cons, ih htools]

section NativeEntries

variable {J : SerdeJson} {obj : Entries} {messages : List Value} {model : Value}

/-- The entries of a native request that are not about tools. -/
theorem nativeEntries_lookups (J : SerdeJson) (obj : Entries) (messages : List Value)
    (model : Value) :
    let native := Anthropic.nativeEntries J obj messages model
    Entries.get native "model" = some model ∧
      Entries.get native "system" = (Anthropic.extractSystemMessage messages).map .string ∧
      Entries.get native "messages" =
        some (.array (Anthropic.convertMessagesToNative J messages)) ∧
      Entries.get native "max_tokens" = some (.number (.posInt
        (((Entries.get obj "max_tokens").bind Value.asU64).getD Anthropic.defaultMaxTokens))) ∧
      Entries.get native "temperature" = Entries.get obj "temperature" ∧
      Entries.get native "top_p" = none ∧
      Entries.get native "stop_sequences" =
        ((Entries.get obj "stop").bind Anthropic.convertStopSequences).map .array ∧
      Entries.get native "stream" = Entries.get obj "stream" := by
  unfold Anthropic.nativeEntries
  simp [Anthropic.get_insertTools, get_insertSome, Entries.get_insert, Entries.get_nil]

/-- No other entries are there. -/
theorem otherEntries_nativeEntries (J : SerdeJson) (obj : Entries) (messages : List Value)
    (model : Value) :
    otherEntries anthropicKeys (.object (Anthropic.nativeEntries J obj messages model)) = [] := by
  have htools : ∀ m, otherEntries anthropicKeys (.object (Anthropic.insertTools obj m)) =
      otherEntries anthropicKeys (.object m) := by
    intro m
    unfold Anthropic.insertTools
    split
    · rw [otherEntries_insertSome (by decide), otherEntries_insert (by decide)]
    · rfl
  unfold Anthropic.nativeEntries
  dsimp only
  rw [htools, otherEntries_insertSome (by decide), otherEntries_insertSome (by decide),
    otherEntries_insertSome (by decide), otherEntries_insert (by decide),
    otherEntries_insert (by decide), otherEntries_insertSome (by decide),
    otherEntries_insert (by decide), otherEntries_nil]

/-- The tools, and what is said about their use. -/
theorem readTools_nativeEntries (J : SerdeJson) (messages : List Value) (model : Value)
    {entries : List Value} {tools : List Tool}
    (hentries : readList (Entries.get obj "tools") = some entries)
    (htools : entries.mapM toolOfOpenAi = some tools) :
    let native := Anthropic.nativeEntries J obj messages model
    ((readList (Entries.get native "tools")).bind (·.mapM toolOfAnthropic)) = some tools ∧
      ToolUse.obliged (if tools.isEmpty then .free
        else .ofAnthropic (Entries.get native "tool_choice")) =
      relaxed (if tools.isEmpty then .obliged .free
        else .ofOpenAi (Entries.get obj "tool_choice")) := by
  intro native
  match entries with
  | [] =>
    obtain rfl : [] = tools := by simpa using htools
    refine ⟨?_, rfl⟩
    have hnone : Entries.get native "tools" = none := by
      have hinsert : ∀ n, Anthropic.insertTools obj n = n := by
        intro n
        unfold Anthropic.insertTools
        rcases readList_eq_some hentries with harray | ⟨harray, -⟩ <;> rw [harray]
      show Entries.get (Anthropic.nativeEntries J obj messages model) "tools" = none
      unfold Anthropic.nativeEntries
      simp [hinsert, get_insertSome, Entries.get_insert, Entries.get_nil]
    rw [hnone]
    rfl
  | t :: entries =>
    obtain harray | ⟨-, hnil⟩ := readList_eq_some hentries
    · have hget : Entries.get obj "tools" = some (.array (t :: entries)) := by
        obtain ⟨v, hv, hvs⟩ := Option.bind_eq_some_iff.mp harray
        rw [hv]
        cases v with
        | array vs =>
          obtain rfl := Option.some.inj hvs
          rfl
        | _ => cases hvs
      have hne : t :: entries ≠ [] := List.cons_ne_nil _ _
      have hempty : tools.isEmpty = false := by
        simp only [List.mapM_cons, Option.pure_def, Option.bind_eq_bind, Option.bind_eq_some_iff,
          Option.some.injEq] at htools
        obtain ⟨tool, -, tools', -, rfl⟩ := htools
        rfl
      rw [hempty, Anthropic.get_nativeEntries_toolChoice J hget hne,
        Anthropic.get_nativeEntries_tools J hget hne]
      exact ⟨mapM_convertToolsToNative htools, toolUse_toNative _⟩
    · cases hnil

/-- The system text. -/
theorem readText_extractSystemMessage {texts : List String}
    (h : (messages.filter hasSystemRole).mapM (fun msg => (msg.get "content").bind Value.asStr) =
      some texts) :
    readText ((Anthropic.extractSystemMessage messages).map .string) =
      some ("\n".intercalate texts) := by
  have htexts : (messages.filterMap fun msg =>
      if Anthropic.role msg == some "system" then (msg.get "content").bind Value.asStr
      else none) = texts := by
    rw [← filterMap_of_mapM h, List.filterMap_filter]
    rfl
  unfold Anthropic.extractSystemMessage
  dsimp only
  rw [htexts]
  cases texts with
  | nil => rfl
  | cons text texts => rfl

/-- The stop sequences. -/
theorem readList_convertStopSequences {stop : Option Value} {stops : List Value}
    (h : readStop stop = some stops) :
    readList ((stop.bind Anthropic.convertStopSequences).map .array) = some stops := by
  cases stop with
  | none => exact h
  | some v =>
    cases v with
    | null | string | array => exact h
    | _ => cases h

/-- The number of tokens. -/
theorem readCount_max_tokens {v : Option Value} {n : Option ℕ} (h : readCount v = some n) :
    (v.bind Value.asU64).getD Anthropic.defaultMaxTokens = n.getD Anthropic.defaultMaxTokens := by
  cases v with
  | none =>
    obtain rfl := Option.some.inj h
    rfl
  | some v =>
    cases v with
    | null =>
      obtain rfl := Option.some.inj h
      rfl
    | number x =>
      obtain ⟨m, hm, rfl⟩ := Option.map_eq_some_iff.mp h
      show (Value.number x).asU64.getD _ = m
      rw [hm]
      rfl
    | _ => cases h

/-- The reading of a request with these entries; `model` and the version of Vertex AI
    may differ. -/
theorem ofAnthropic_nativeEntries {native : Value} {q : Inquiry} {entries : List Value}
    {system : List String} {turns : List (List Utterance)}
    (h : ReadsAs J (.object obj) messages entries model system turns q)
    (hget : ∀ k, k ≠ "model" → k ≠ "anthropic_version" →
      native.get k = Entries.get (Anthropic.nativeEntries J obj messages model) k)
    (hothers : otherEntries anthropicKeys native = []) :
    Inquiry.ofAnthropic native = some { q.forAnthropic with model := native.get "model" } := by
  obtain ⟨-, hsys, hmsgs, hmax, htemp, htopP, hstop, hstream⟩ :=
    nativeEntries_lookups J obj messages model
  obtain ⟨hnativeTools, htoolUse⟩ :=
    readTools_nativeEntries J messages model h.entries_eq h.tools_eq
  obtain ⟨nativeTools, hreadTools, hmapTools⟩ := Option.bind_eq_some_iff.mp hnativeTools
  have hturns : (Anthropic.convertMessagesToNative J messages).mapM turnsOfAnthropic =
      some turns := by
    have hmap := mapM_map_eq_some (k := id)
      (fun msg ts (hmsg : turnsOfOpenAi J msg = some ts) => turnsOfAnthropic_convertMessage hmsg)
      h.turns_eq
    rwa [List.map_id] at hmap
  have hreadMax := readCount_max_tokens h.maxTokens_eq
  have hreadStops := readList_convertStopSequences h.stops_eq
  rw [Value.get_object] at hreadMax hreadStops
  simp only [Inquiry.ofAnthropic, hget _ (by decide : "messages" ≠ "model") (by decide),
    hget _ (by decide : "system" ≠ "model") (by decide),
    hget _ (by decide : "max_tokens" ≠ "model") (by decide),
    hget _ (by decide : "stop_sequences" ≠ "model") (by decide),
    hget _ (by decide : "tools" ≠ "model") (by decide),
    hget _ (by decide : "temperature" ≠ "model") (by decide),
    hget _ (by decide : "top_p" ≠ "model") (by decide),
    hget _ (by decide : "stream" ≠ "model") (by decide),
    hget _ (by decide : "tool_choice" ≠ "model") (by decide)]
  rw [hmsgs, hsys, readText_extractSystemMessage h.system_eq, hmax, hreadMax, hstop, hreadStops,
    hreadTools, htemp, htopP, hstream]
  simp only [Option.bind_eq_bind, Option.bind_some, Option.pure_def, Option.map_some, Value.asArray,
    Value.asU64, readCount, hturns, hmapTools, htoolUse, hothers]
  rw [h.inquiry_eq]
  rfl

end NativeEntries

/-- A request that is read is an object. -/
theorem ReadsAs.exists_object {J : SerdeJson} {request model : Value} {q : Inquiry}
    {messages entries : List Value} {system : List String} {turns : List (List Utterance)}
    (h : ReadsAs J request messages entries model system turns q) :
    ∃ obj, request = .object obj := by
  cases request with
  | object obj => exact ⟨obj, rfl⟩
  | _ => cases h.model_eq

/-- The request for Anthropic's own API. -/
theorem ofAnthropic_toNative {J : SerdeJson} {request : Value} {q : Inquiry}
    (h : Inquiry.ofOpenAi J request = some q) :
    ∃ native, Anthropic.toNative J request = .ok native ∧
      Inquiry.ofAnthropic native = some q.forAnthropic := by
  obtain ⟨messages, entries, model, system, turns, hreads⟩ := readsAs_of_ofOpenAi h
  obtain ⟨obj, rfl⟩ := hreads.exists_object
  refine ⟨_, Anthropic.toNative_ok J hreads.messages_eq hreads.model_eq, ?_⟩
  rw [ofAnthropic_nativeEntries hreads (fun _ _ _ => rfl) (otherEntries_nativeEntries _ _ _ _),
    Value.get_object, Anthropic.get_nativeEntries_model, hreads.inquiry_eq]
  rfl

/-- The request for Claude on Vertex AI. -/
theorem ofAnthropic_vertexToNative {J : SerdeJson} {request : Value} {q : Inquiry}
    (h : Inquiry.ofOpenAi J request = some q) :
    ∃ native, VertexAnthropic.toNative J request = .ok native ∧
      Inquiry.ofAnthropic native = some { q.forAnthropic with model := none } := by
  obtain ⟨messages, entries, model, system, turns, hreads⟩ := readsAs_of_ofOpenAi h
  obtain ⟨obj, rfl⟩ := hreads.exists_object
  have hnative := Anthropic.toNative_ok J hreads.messages_eq hreads.model_eq
  refine ⟨_, by rw [VertexAnthropic.toNative, hnative]; rfl, ?_⟩
  rw [ofAnthropic_nativeEntries hreads (fun k hmodel hversion => ?_) ?_]
  · rw [Value.get_object, Entries.get_insert_of_ne _ _ (by decide), Entries.get_remove,
      if_pos rfl]
  · rw [otherEntries_insert (by decide)]
    exact otherEntries_remove (otherEntries_nativeEntries _ _ _ _) _
  · rw [Value.get_object, Entries.get_insert_of_ne _ _ hversion.symm, Entries.get_remove,
      if_neg hmodel.symm]

end Melis.Transpiler
