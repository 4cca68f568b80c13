import Melis.Transpiler.Inquiry

/-!
# What Gemini is asked

`VertexTranspiler::to_native` keeps what is said and four of the settings, and drops the
tools and every other setting.

* `turnsOfGemini_contentEntry`: one message.
* `vertex_toNative_inquiry`: a whole request.
-/

namespace Melis.Transpiler

/-! ## Reading -/

/-- A message of Gemini, whose parts are texts. -/
def turnsOfGemini (msg : Value) : Option (List Utterance) := do
  let role ← Anthropic.role msg
  let parts ← (msg.get "parts").bind Value.asArray
  let texts ← parts.mapM fun part => (part.get "text").bind Value.asStr
  if role = "user" then return texts.flatMap (saying .user)
  else if role = "model" then return texts.flatMap (saying .assistant)
  else none

/-- A request to Gemini, whose model is in the URL. -/
def Inquiry.ofGemini (request : Value) : Option Inquiry := do
  let contents ← (request.get "contents").bind Value.asArray
  let parts ← readList ((request.get "systemInstruction").bind fun v => v.get "parts")
  let system ← parts.mapM fun part => (part.get "text").bind Value.asStr
  let turns ← contents.mapM turnsOfGemini
  let settings := request.get "generationConfig"
  let maxTokens ← readCount (settings.bind fun v => v.get "maxOutputTokens")
  let stops ← readList (settings.bind fun v => v.get "stopSequences")
  return { model := none, system := "\n".intercalate system, turns := turns.flatten, maxTokens
           temperature := settings.bind fun v => v.get "temperature"
           topP := settings.bind fun v => v.get "topP", stops
           stream := none, tools := [], toolUse := .obliged .free
           others := otherEntries ["contents", "systemInstruction", "generationConfig"] request ++
             otherEntries ["temperature", "maxOutputTokens", "stopSequences", "topP"]
               (settings.getD .null) }

/-- What Gemini gets of a turn: no calls, and results as if the user said them. -/
def Utterance.forGemini : Utterance → List Utterance
  | .say speaker text => [.say speaker text]
  | .call _ _ _ => []
  | .result _ text => saying .user text

/-- What Gemini is asked: the model, `stream`, the tools, their calls and what is said
    about their use are dropped, and every setting without a field of its own. -/
def Inquiry.forGemini (q : Inquiry) : Inquiry :=
  { q with
    model := none
    turns := q.turns.flatMap Utterance.forGemini
    stream := none
    tools := []
    toolUse := .obliged .free
    others := [] }

section Gemini

variable {J : SerdeJson} {request : Value}

theorem forGemini_saying (speaker : Speaker) (text : String) :
    (saying speaker text).flatMap Utterance.forGemini = saying speaker text := by
  unfold saying
  split_ifs <;> rfl

theorem forGemini_calls {toolCalls : List Value} {calls : List Utterance}
    (h : toolCalls.mapM (callOfOpenAi J) = some calls) :
    calls.flatMap Utterance.forGemini = [] := by
  rw [← filterMap_of_mapM h, List.flatMap_eq_nil_iff]
  intro turn hturn
  obtain ⟨tc, -, htc⟩ := List.mem_filterMap.mp hturn
  obtain ⟨id, -, h1⟩ := Option.bind_eq_some_iff.mp htc
  obtain ⟨function, -, h2⟩ := Option.bind_eq_some_iff.mp h1
  obtain ⟨name, -, h3⟩ := Option.bind_eq_some_iff.mp h2
  obtain ⟨arguments, -, h4⟩ := Option.bind_eq_some_iff.mp h3
  obtain ⟨input, -, h5⟩ := Option.bind_eq_some_iff.mp h4
  obtain rfl := Option.some.inj h5
  rfl

/-- The entry of `contents` for a message. -/
def contentEntry (msg : Value) : Value :=
  .json [("role", .string (Vertex.mapRoleToVertex (Vertex.messageParts msg).1)),
    ("parts", .array [.json [("text", .string (Vertex.messageParts msg).2)]])]

theorem contents_filter (messages : List Value) :
    Vertex.contents messages = (messages.filter (!hasSystemRole ·)).map contentEntry := by
  have hrole : ∀ msg, ((Vertex.messageParts msg).1 != "system") = !hasSystemRole msg := by
    intro msg
    show (((msg.get "role").bind Value.asStr).getD "user" != "system") =
      !(((msg.get "role").bind Value.asStr) == some "system")
    cases (msg.get "role").bind Value.asStr with
    | none => rfl
    | some role => simp [bne]
  rw [Vertex.contents, List.filter_map, List.map_map]
  exact congrArg _ (List.filter_congr fun msg _ => hrole msg)

theorem turnsOfGemini_of_role {msg : Value} {role text : String} {speaker : Speaker}
    (hrole : Anthropic.role msg = some role) (htext : readText (msg.get "content") = some text)
    (hspeaker : Vertex.mapRoleToVertex role = "user" ∧ speaker = .user ∨
      Vertex.mapRoleToVertex role = "model" ∧ speaker = .assistant) :
    turnsOfGemini (contentEntry msg) = some (saying speaker text) := by
  have hparts : Vertex.messageParts msg = (role, text) := by
    have hcontent : ((msg.get "content").bind Value.asStr).getD "" = text := by
      rcases readText_eq_some htext with hsome | ⟨hnone, rfl⟩
      · rw [hsome]
        rfl
      · rw [hnone]
        rfl
    have hrole' : ((msg.get "role").bind Value.asStr).getD "user" = role := by
      rw [show (msg.get "role").bind Value.asStr = some role from hrole]
      rfl
    exact Prod.ext hrole' hcontent
  rcases hspeaker with ⟨hmapped, rfl⟩ | ⟨hmapped, rfl⟩ <;>
    simp [turnsOfGemini, contentEntry, hparts, hmapped, Anthropic.role, Value.get_json,
      Entries.get_cons, asStr_string, Value.asArray]

/-- A message for Gemini. -/
theorem turnsOfGemini_contentEntry {msg : Value} {turns : List Utterance}
    (h : turnsOfOpenAi J msg = some turns) :
    turnsOfGemini (contentEntry msg) = some (turns.flatMap Utterance.forGemini) := by
  cases readsMessage_of_turnsOfOpenAi h with
  | user text hrole htext =>
    rw [forGemini_saying]
    exact turnsOfGemini_of_role hrole htext (.inl ⟨rfl, rfl⟩)
  | assistant text toolCalls calls hrole htext htoolCalls hcalls =>
    rw [List.flatMap_append, forGemini_saying, forGemini_calls hcalls, List.append_nil]
    exact turnsOfGemini_of_role hrole htext (.inr ⟨rfl, rfl⟩)
  | tool id text hrole htext hid =>
    rw [List.flatMap_singleton]
    exact turnsOfGemini_of_role hrole htext (.inl ⟨rfl, rfl⟩)

theorem systemParts_filter (messages : List Value) :
    Vertex.systemParts messages = (messages.filter hasSystemRole).map fun msg =>
      .json [("text", .string (Vertex.messageParts msg).2)] := by
  have hrole : ∀ msg, ((Vertex.messageParts msg).1 == "system") = hasSystemRole msg := by
    intro msg
    show (((msg.get "role").bind Value.asStr).getD "user" == "system") =
      (((msg.get "role").bind Value.asStr) == some "system")
    cases (msg.get "role").bind Value.asStr with
    | none => rfl
    | some role => simp
  rw [Vertex.systemParts, List.filter_map, List.map_map]
  exact congrArg _ (List.filter_congr fun msg _ => hrole msg)

theorem mapM_systemParts {messages : List Value} {system : List String}
    (h : (messages.filter hasSystemRole).mapM (fun msg => (msg.get "content").bind Value.asStr) =
      some system) :
    (Vertex.systemParts messages).mapM (fun part => (part.get "text").bind Value.asStr) =
      some system := by
  rw [systemParts_filter]
  have hmap := mapM_map_eq_some (k := id) (g := fun part : Value =>
    (part.get "text").bind Value.asStr) (φ := fun msg : Value =>
      Value.json [("text", .string (Vertex.messageParts msg).2)])
    (fun msg text (htext : (msg.get "content").bind Value.asStr = some text) => by
      simp [Vertex.messageParts, htext, Value.get_json, Entries.get_cons, asStr_string]) h
  rwa [List.map_id] at hmap

/-- The request with its settings, if there are any. -/
def withSettings (native settings : Entries) : Entries :=
  if settings.isEmpty then native else Entries.insert "generationConfig" (.object settings) native

theorem get_withSettings (native settings : Entries) {k : String} (h : "generationConfig" ≠ k) :
    Entries.get (withSettings native settings) k = Entries.get native k := by
  unfold withSettings
  split_ifs
  · rfl
  · exact Entries.get_insert_of_ne _ _ h

theorem get_setting {native : Entries} (h : Entries.get native "generationConfig" = none)
    (settings : Entries) (k : String) :
    ((Entries.get (withSettings native settings) "generationConfig").bind fun v => v.get k) =
      Entries.get settings k := by
  unfold withSettings
  split_ifs with hempty
  · rw [h, List.isEmpty_iff.mp hempty, Entries.get_nil]
    rfl
  · rw [Entries.get_insert_self]
    rfl

/-- A single `stop` text is no list. -/
theorem readList_stop {stop : Option Value} {stops : List Value} (h : readStop stop = some stops) :
    readList stop = if (stop.bind Value.asStr).isSome then none else some stops := by
  cases stop with
  | none => exact h
  | some v =>
    cases v with
    | string s => rfl
    | null | array => exact h
    | _ => cases h

theorem get_generationConfig_keys (request : Value) :
    let config := Vertex.generationConfig request
    Entries.get config "temperature" = request.get "temperature" ∧
      Entries.get config "maxOutputTokens" = request.get "max_tokens" ∧
      Entries.get config "stopSequences" = request.get "stop" ∧
      Entries.get config "topP" = request.get "top_p" := by
  unfold Vertex.generationConfig
  simp [get_insertSome, Entries.get_nil]

/-- No other entries are there. -/
theorem otherEntries_withSettings {native : Entries}
    (hnative : otherEntries ["contents", "systemInstruction", "generationConfig"]
      (.object native) = []) (hnone : Entries.get native "generationConfig" = none)
    (request : Value) :
    let sent := withSettings native (Vertex.generationConfig request)
    otherEntries ["contents", "systemInstruction", "generationConfig"] (.object sent) ++
      otherEntries ["temperature", "maxOutputTokens", "stopSequences", "topP"]
        ((Entries.get sent "generationConfig").getD .null) = [] := by
  have hsettings : otherEntries ["temperature", "maxOutputTokens", "stopSequences", "topP"]
      (.object (Vertex.generationConfig request)) = [] := by
    unfold Vertex.generationConfig
    dsimp only
    rw [otherEntries_insertSome (by decide), otherEntries_insertSome (by decide),
      otherEntries_insertSome (by decide), otherEntries_insertSome (by decide), otherEntries_nil]
  intro sent
  simp only [sent, withSettings]
  split_ifs
  · rw [hnative, hnone]
    rfl
  · rw [otherEntries_insert (by decide), hnative, Entries.get_insert_self]
    exact hsettings

end Gemini

end Melis.Transpiler
