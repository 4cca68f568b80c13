import Melis.Router.Frame
import Melis.Transpiler.Factory

/-!
# The text of a translated request

What the transpilers for Anthropic and for Gemini make of the messages of an accepted
payload: the system messages become one system text, and every other message one entry, in
order and with its text.

* `get_nativeEntries_messages`, `get_nativeEntries_system`: the entries of a request for
  Anthropic.
* `anthropicEntry_convertMessage`, `vertexEntry_content`: one message.
* `toNative_text`: a whole request.
-/

namespace Melis.Router

open Transpiler

/-! ## Messages and entries -/

/-- The role and the text of a message. -/
structure Says (msg : Value) (role text : String) : Prop where
  role : msg.get "role" = some (.string role)
  text : msg.get "content" = some (.string text)

/-- The message has the role `system`. -/
def isSystem (msg : Value) : Bool := Anthropic.role msg == some "system"

/-- The content of an entry for Anthropic carries `text`: as it is; before the uses of
    tools of an assistant; or as the result of a tool. -/
inductive CarriesText (J : SerdeJson) (msg : Value) (role text : String) : Value → Prop
  | plain (hrole : role ≠ "tool") : CarriesText J msg role text (.string text)
  | toolUses (calls : List Value) (hrole : role = "assistant") (hne : calls ≠ [])
      (hcalls : msg.get "tool_calls" = some (.array calls)) :
      CarriesText J msg role text (.array (.json [("type", .string "text"),
        ("text", .string text)] :: calls.map (Anthropic.toolUseBlock J)))
  | toolResult (hrole : role = "tool") :
      CarriesText J msg role text (.array [.json [("type", .string "tool_result"),
        ("tool_use_id", .string (((msg.get "tool_call_id").bind Value.asStr).getD "")),
        ("content", .string text)]])

/-- The entry for Anthropic has the message's text, and the role `assistant` exactly if the
    message has it. -/
def AnthropicEntry (J : SerdeJson) (msg entry : Value) : Prop :=
  ∃ role text content, Says msg role text ∧
    entry = .json [("role", .string (if role = "assistant" then "assistant" else "user")),
      ("content", content)] ∧
    CarriesText J msg role text content

/-- The entry for Gemini has the message's text, and the role `model` exactly if the
    message has the role `assistant`. -/
def VertexEntry (msg entry : Value) : Prop :=
  ∃ role text, Says msg role text ∧
    entry = .json [("role", .string (if role = "assistant" then "model" else "user")),
      ("parts", .array [.json [("text", .string text)]])]

/-- The part of a text for Gemini. -/
def textPart (text : String) : Value := .json [("text", .string text)]

/-! ## Lookups in a native request -/

section Lookups

variable (J : SerdeJson) (obj : Entries) (messages : List Value) (model : Value)

theorem get_nativeEntries_messages :
    Entries.get (Anthropic.nativeEntries J obj messages model) "messages" =
      some (.array (Anthropic.convertMessagesToNative J messages)) := by
  unfold Anthropic.nativeEntries
  rw [Anthropic.get_insertTools _ _ (by decide) (by decide),
    Anthropic.get_insertSome_of_ne (by decide), Anthropic.get_insertSome_of_ne (by decide),
    Anthropic.get_insertSome_of_ne (by decide), Entries.get_insert_of_ne _ _ (by decide),
    Entries.get_insert_self]

theorem get_nativeEntries_system :
    Entries.get (Anthropic.nativeEntries J obj messages model) "system" =
      (Anthropic.extractSystemMessage messages).map .string := by
  unfold Anthropic.nativeEntries
  rw [Anthropic.get_insertTools _ _ (by decide) (by decide),
    Anthropic.get_insertSome_of_ne (by decide), Anthropic.get_insertSome_of_ne (by decide),
    Anthropic.get_insertSome_of_ne (by decide), Entries.get_insert_of_ne _ _ (by decide),
    Entries.get_insert_of_ne _ _ (by decide)]
  cases Anthropic.extractSystemMessage messages with
  | none => rfl
  | some text => exact Entries.get_insert_self _ _ _

end Lookups

/-! ## One message -/

section Message

variable {J : SerdeJson} {msg : Value} {role text : String}

theorem Says.anthropicRole (h : Says msg role text) : Anthropic.role msg = some role := by
  rw [Anthropic.role, h.role]
  rfl

theorem Says.isSystem_iff (h : Says msg role text) : isSystem msg = true ↔ role = "system" := by
  rw [isSystem, h.anthropicRole, beq_iff_eq, Option.some.injEq]

theorem Says.messageParts (h : Says msg role text) : Vertex.messageParts msg = (role, text) := by
  rw [Vertex.messageParts, h.role, h.text]
  rfl

theorem AcceptedMessage.roleAndText (h : AcceptedMessage msg) :
    ∃ role text, Says msg role text ∧ text ≠ "" := by
  obtain ⟨role, hrole⟩ := exists_string_of_nonEmptyString h.1
  obtain ⟨text, htext⟩ := exists_string_of_nonEmptyString h.2
  refine ⟨role, text, ⟨hrole, htext⟩, ?_⟩
  rw [← nonEmptyString_string_iff, ← htext]
  exact h.2

theorem plainMessage_eq (h : Says msg role text) :
    Anthropic.plainMessage msg role =
      .json [("role", .string (if role = "assistant" then "assistant" else "user")),
        ("content", .string text)] := by
  rw [Anthropic.plainMessage, h.text]
  simp

/-- A message for Anthropic. -/
theorem anthropicEntry_convertMessage (h : AcceptedMessage msg) :
    AnthropicEntry J msg (Anthropic.convertMessage J msg) := by
  obtain ⟨role, text, hsay, hne⟩ := h.roleAndText
  rw [Anthropic.convertMessage, hsay.anthropicRole, Option.getD_some]
  by_cases htool : role = "tool"
  · rw [if_pos (beq_iff_eq.mpr htool), hsay.text]
    refine ⟨role, text, _, hsay, ?_, .toolResult htool⟩
    rw [htool]
    rfl
  rw [if_neg (by simpa using htool)]
  have hplain : AnthropicEntry J msg (Anthropic.plainMessage msg role) :=
    ⟨role, text, _, hsay, plainMessage_eq hsay, .plain htool⟩
  by_cases hassistant : role = "assistant"
  · rw [if_pos (beq_iff_eq.mpr hassistant)]
    cases hcalls : msg.get "tool_calls" with
    | none => exact hplain
    | some v =>
      cases v with
      | array calls =>
        cases calls with
        | nil => exact hplain
        | cons tc calls =>
          refine ⟨role, text, _, hsay, ?_, .toolUses (tc :: calls) hassistant
            (List.cons_ne_nil _ _) hcalls⟩
          have hempty : Text.isEmpty text = false :=
            Bool.eq_false_iff.mpr (mt Text.isEmpty_iff.mp hne)
          simp [Value.asArray, Value.asStr, Anthropic.toolCallBlocks, hsay.text, hempty,
            hassistant]
      | _ => exact hplain
  · rw [if_neg (by simpa using hassistant)]
    exact hplain

/-- A message for Gemini. -/
theorem vertexEntry_content (h : AcceptedMessage msg) :
    VertexEntry msg (.json [
      ("role", .string (Vertex.mapRoleToVertex (Vertex.messageParts msg).1)),
      ("parts", .array [.json [("text", .string (Vertex.messageParts msg).2)]])]) := by
  obtain ⟨role, text, hsay, -⟩ := h.roleAndText
  refine ⟨role, text, hsay, ?_⟩
  rw [hsay.messageParts, Vertex.mapRoleToVertex]
  simp

end Message

/-! ## All messages -/

section Messages

variable {messages : List Value}

/-- The texts of the system messages. -/
def systemTexts (messages : List Value) : List String :=
  (messages.filter isSystem).map fun msg => (Vertex.messageParts msg).2

/-- Gemini's transpiler sorts the messages by the same role. -/
theorem filter_messageParts (keep : Bool → Bool) (hall : ∀ msg ∈ messages, AcceptedMessage msg) :
    (messages.map Vertex.messageParts).filter (fun m => keep (m.1 == "system")) =
      (messages.filter fun msg => keep (isSystem msg)).map Vertex.messageParts := by
  rw [List.filter_map]
  refine congrArg _ (List.filter_congr fun msg hmsg => congrArg keep ?_)
  obtain ⟨role, text, hsay, -⟩ := (hall msg hmsg).roleAndText
  rw [hsay.messageParts, Bool.eq_iff_iff, hsay.isSystem_iff, beq_iff_eq]

/-- The system text for Anthropic. -/
theorem extractSystemMessage_eq (hall : ∀ msg ∈ messages, AcceptedMessage msg) :
    Anthropic.extractSystemMessage messages =
      if systemTexts messages = [] then none
      else some ("\n".intercalate (systemTexts messages)) := by
  have htexts : (messages.filterMap fun msg =>
      if Anthropic.role msg == some "system" then (msg.get "content").bind Value.asStr
      else none) = systemTexts messages := by
    rw [systemTexts]
    induction messages with
    | nil => rfl
    | cons msg messages ih =>
      rw [List.forall_mem_cons] at hall
      obtain ⟨role, text, hsay, -⟩ := hall.1.roleAndText
      rw [List.filterMap_cons, List.filter_cons, ih hall.2, isSystem, hsay.text]
      split_ifs
      · rw [List.map_cons, hsay.messageParts]
        rfl
      · rfl
  rw [Anthropic.extractSystemMessage]
  simp only [htexts, List.isEmpty_iff]

/-- The system texts are those of the system messages. -/
theorem systemTexts_forall₂ (hall : ∀ msg ∈ messages, AcceptedMessage msg) :
    List.Forall₂ (fun msg text => msg.get "content" = some (.string text))
      (messages.filter isSystem) (systemTexts messages) := by
  rw [systemTexts, List.forall₂_map_right_iff, List.forall₂_same]
  intro msg hmsg
  obtain ⟨role, text, hsay, -⟩ := (hall msg (List.mem_of_mem_filter hmsg)).roleAndText
  rw [hsay.messageParts]
  exact hsay.text

theorem anthropicEntries (J : SerdeJson) (hall : ∀ msg ∈ messages, AcceptedMessage msg) :
    List.Forall₂ (AnthropicEntry J) (messages.filter fun msg => !isSystem msg)
      (Anthropic.convertMessagesToNative J messages) := by
  rw [Anthropic.convertMessagesToNative]
  show List.Forall₂ _ _ (List.map _ (messages.filter fun msg => !isSystem msg))
  rw [List.forall₂_map_right_iff, List.forall₂_same]
  exact fun msg hmsg => anthropicEntry_convertMessage (hall msg (List.mem_of_mem_filter hmsg))

theorem vertexEntries (hall : ∀ msg ∈ messages, AcceptedMessage msg) :
    List.Forall₂ VertexEntry (messages.filter fun msg => !isSystem msg)
      (Vertex.contents messages) := by
  have hfilter : (messages.map Vertex.messageParts).filter (fun m => m.1 != "system") =
      (messages.filter fun msg => !isSystem msg).map Vertex.messageParts :=
    filter_messageParts not hall
  rw [Vertex.contents, hfilter, List.map_map, List.forall₂_map_right_iff, List.forall₂_same]
  exact fun msg hmsg => vertexEntry_content (hall msg (List.mem_of_mem_filter hmsg))

theorem systemParts_eq (hall : ∀ msg ∈ messages, AcceptedMessage msg) :
    Vertex.systemParts messages = (systemTexts messages).map textPart := by
  have hfilter : (messages.map Vertex.messageParts).filter (fun m => m.1 == "system") =
      (messages.filter isSystem).map Vertex.messageParts := filter_messageParts id hall
  rw [Vertex.systemParts, hfilter, systemTexts, List.map_map, List.map_map]
  rfl

end Messages

/-! ## A request -/

/-- A request for Gemini. -/
theorem vertex_toNative_ok {request : Value} {messages : List Value}
    (hmessages : request.get "messages" = some (.array messages)) :
    ∃ native, Vertex.toNative request = .ok native ∧
      native.get "contents" = some (.array (Vertex.contents messages)) ∧
      native.get "systemInstruction" = if Vertex.systemParts messages = [] then none
        else some (.json [("parts", .array (Vertex.systemParts messages))]) := by
  rw [Vertex.toNative, hmessages]
  refine ⟨_, rfl, ?_, ?_⟩
  · rw [Value.get_object]
    split_ifs
    all_goals simp [Entries.get_insert, Entries.get_ofList, Entries.get_cons]
  · rw [Value.get_object]
    simp only [List.isEmpty_iff]
    split_ifs
    all_goals simp [Entries.get_insert, Entries.get_ofList, Entries.get_cons]

/-- **No text is lost.** Both transpilers translate every accepted payload. The system text
    is that of the system messages in order, joined by newlines or part by part, and absent
    if there are none. Every other message becomes one entry, in order, with its text, and
    with the role of the assistant exactly if that is the message's. -/
theorem toNative_text (J : SerdeJson) {payload : Value}
    (h : validateChatPayload payload = .ok ()) :
    ∃ messages texts, payload.get "messages" = some (.array messages) ∧
      List.Forall₂ (fun msg text => msg.get "content" = some (.string text))
        (messages.filter isSystem) texts ∧
      (∃ native entries, Anthropic.toNative J payload = .ok native ∧
        native.get "system" =
          (if texts = [] then none else some (.string ("\n".intercalate texts))) ∧
        native.get "messages" = some (.array entries) ∧
        List.Forall₂ (AnthropicEntry J) (messages.filter fun msg => !isSystem msg) entries) ∧
      ∃ native entries, Vertex.toNative payload = .ok native ∧
        native.get "systemInstruction" =
          (if texts = [] then none
          else some (.json [("parts", .array (texts.map textPart))])) ∧
        native.get "contents" = some (.array entries) ∧
        List.Forall₂ VertexEntry (messages.filter fun msg => !isSystem msg) entries := by
  obtain ⟨-, messages, hget, -, hall⟩ := validateChatPayload_iff.mp h
  obtain ⟨obj, model, messages', rfl, hmodel, hmessages, -⟩ := validateChatPayload_ok h
  obtain rfl : messages' = messages := Value.array.inj (Option.some.inj (hmessages.symm.trans hget))
  refine ⟨messages', systemTexts messages', hget, systemTexts_forall₂ hall,
    ⟨_, _, Anthropic.toNative_ok J hmessages hmodel, ?_, get_nativeEntries_messages J _ _ _,
      anthropicEntries J hall⟩, ?_⟩
  · rw [Value.get_object, get_nativeEntries_system, extractSystemMessage_eq hall]
    split_ifs <;> rfl
  · obtain ⟨native, hok, hcontents, hsystem⟩ := vertex_toNative_ok hget
    refine ⟨native, _, hok, ?_, hcontents, vertexEntries hall⟩
    rw [hsystem, systemParts_eq hall]
    simp only [List.map_eq_nil_iff]

/-- A system message, a question, the use of a tool and its result. -/
def coldConversation : List Value :=
  [.json [("role", .string "system"), ("content", .string "Be brief.")],
    .json [("role", .string "user"), ("content", .string "Is it cold?")],
    .json [("role", .string "assistant"), ("content", .string "Let me see."),
      ("tool_calls", .array [.json [("id", .string "t1")]])],
    .json [("role", .string "tool"), ("content", .string "-3"), ("tool_call_id", .string "t1")]]

/-- Both formats have the system text, and three entries. -/
theorem toNative_text_tools :
    let payload : Value := .json [("model", .string "m"), ("messages", .array coldConversation)]
    (∃ native entries, Anthropic.toNative (.ofTable []) payload = .ok native ∧
      native.get "system" = some (.string "Be brief.") ∧
      native.get "messages" = some (.array entries) ∧ entries.length = 3) ∧
    ∃ native entries, Vertex.toNative payload = .ok native ∧
      native.get "systemInstruction" =
        some (.json [("parts", .array [textPart "Be brief."])]) ∧
      native.get "contents" = some (.array entries) ∧ entries.length = 3 := by
  intro payload
  obtain ⟨messages, texts, hget, htexts, ⟨native, entries, hok, hsystem, hentries, hall⟩,
    native', entries', hok', hsystem', hentries', hall'⟩ :=
      @toNative_text (.ofTable []) payload (by rfl)
  obtain rfl : messages = coldConversation :=
    (Value.array.inj (Option.some.inj (hget.symm.trans rfl)))
  obtain rfl : texts = ["Be brief."] := by
    have hfilter : coldConversation.filter isSystem =
        [.json [("role", .string "system"), ("content", .string "Be brief.")]] := rfl
    rw [hfilter] at htexts
    cases htexts with
    | cons htext hnil =>
      cases hnil
      rw [← Value.string.inj (Option.some.inj htext)]
  exact ⟨⟨native, entries, hok, hsystem, hentries, hall.length_eq.symm⟩,
    native', entries', hok', hsystem', hentries', hall'.length_eq.symm⟩

end Melis.Router
