import Melis.Transpiler.Factory
import Melis.Transpiler.Tools

/-!
# What a request asks

An `Inquiry` is what a request asks of a model, apart from the format: who said
what, which tools were called and what they returned, the tools at hand, and all
settings. Here it is read off a request in the format of OpenAI; a request that does
not keep to the format has no reading. Of a message the role, the content, the calls and
the call it answers are read, of a tool its name, description and parameters, and
`tool_choice` where there are tools.

* `otherEntries`: the settings without a field of their own.
* `readsMessage_of_turnsOfOpenAi`: the messages that are read.
* `readsAs_of_ofOpenAi`: the requests that are read.
-/

namespace Melis.Transpiler

open Anthropic (Obligation)

/-- Who speaks. -/
inductive Speaker where
  | user
  | assistant
deriving DecidableEq

/-- One thing that happens in a conversation. -/
inductive Utterance where
  | say (speaker : Speaker) (text : String)
  | call (id name : String) (input : Value)
  | result (id text : String)

/-- A tool that the model can call. -/
structure Tool where
  name : Value
  description : Value
  parameters : Value

/-- What a request says about the use of its tools: it forbids it, or obliges the model
    to some degree. -/
inductive ToolUse where
  | forbidden
  | obliged (obligation : Obligation)

/-- What a request asks of a model. The settings that have no field of their own are
    `others`, as they stand in the request. -/
structure Inquiry where
  model : Option Value
  system : String
  turns : List Utterance
  maxTokens : Option ℕ
  temperature : Option Value
  topP : Option Value
  stops : List Value
  stream : Option Value
  tools : List Tool
  toolUse : ToolUse
  others : Entries

/-! ## Reading -/

/-- The entries of an object under other keys than these. -/
def otherEntries (keys : List String) (v : Value) : Entries :=
  (v.asObject.getD []).filter fun e => !keys.contains e.1

/-- The keys of a request to OpenAI that are read one by one. -/
def openAiKeys : List String :=
  ["model", "messages", "max_tokens", "temperature", "top_p", "stop", "stream", "tools",
    "tool_choice"]

/-- The tool use of an OpenAI `tool_choice`: `"none"` forbids it. -/
def ToolUse.ofOpenAi (toolChoice : Option Value) : ToolUse :=
  if toolChoice.bind Value.asStr == some "none" then .forbidden
  else .obliged (.ofOpenAi toolChoice)

/-- The speaker says the text; an empty text is nothing. -/
def saying (speaker : Speaker) (text : String) : List Utterance :=
  if text = "" then [] else [.say speaker text]

/-- A text that can be left out. -/
def readText : Option Value → Option String
  | none => some ""
  | some .null => some ""
  | some (.string s) => some s
  | _ => none

/-- A list that can be left out. -/
def readList : Option Value → Option (List Value)
  | none => some []
  | some .null => some []
  | some (.array vs) => some vs
  | _ => none

/-- A number that can be left out. -/
def readCount : Option Value → Option (Option ℕ)
  | none => some none
  | some .null => some none
  | some v => v.asU64.map some

/-- `stop` of OpenAI: a text, or a list of them. -/
def readStop : Option Value → Option (List Value)
  | some (.string s) => some [.string s]
  | v => readList v

/-- The message has the role `system`. -/
def hasSystemRole (msg : Value) : Bool := Anthropic.role msg == some "system"

/-- A tool of OpenAI, with the defaults for what it leaves out. -/
def toolOfOpenAi (t : Value) : Option Tool := do
  let function ← t.get "function"
  return { name := (function.get "name").getD .null
           description := (function.get "description").getD (.string "")
           parameters := (function.get "parameters").getD
             (.json [("type", .string "object"), ("properties", .json [])]) }

/-- A tool call of OpenAI. Its arguments are the text of a JSON value. -/
def callOfOpenAi (J : SerdeJson) (tc : Value) : Option Utterance := do
  let id ← (tc.get "id").bind Value.asStr
  let function ← tc.get "function"
  let name ← (function.get "name").bind Value.asStr
  let arguments ← (function.get "arguments").bind Value.asStr
  let input ← J.fromStr arguments
  return .call id name input

/-- A message of OpenAI other than a system message. -/
def turnsOfOpenAi (J : SerdeJson) (msg : Value) : Option (List Utterance) := do
  let role ← Anthropic.role msg
  let text ← readText (msg.get "content")
  if role = "user" then return saying .user text
  else if role = "assistant" then
    let toolCalls ← readList (msg.get "tool_calls")
    let calls ← toolCalls.mapM (callOfOpenAi J)
    return saying .assistant text ++ calls
  else if role = "tool" then
    let id ← (msg.get "tool_call_id").bind Value.asStr
    return [.result id text]
  else none

/-- A request to OpenAI. -/
def Inquiry.ofOpenAi (J : SerdeJson) (request : Value) : Option Inquiry := do
  let messages ← (request.get "messages").bind Value.asArray
  let model ← request.get "model"
  let system ← (messages.filter hasSystemRole).mapM
    fun msg => (msg.get "content").bind Value.asStr
  let turns ← (messages.filter (!hasSystemRole ·)).mapM (turnsOfOpenAi J)
  let maxTokens ← readCount (request.get "max_tokens")
  let stops ← readStop (request.get "stop")
  let entries ← readList (request.get "tools")
  let tools ← entries.mapM toolOfOpenAi
  return { model := some model, system := "\n".intercalate system, turns := turns.flatten
           maxTokens
           temperature := request.get "temperature", topP := request.get "top_p", stops
           stream := request.get "stream", tools
           toolUse :=
             if tools.isEmpty then .obliged .free else .ofOpenAi (request.get "tool_choice")
           others := otherEntries openAiKeys request }

/-! ## Other entries -/

section OtherEntries

variable {keys : List String} {key : String}

theorem otherEntries_nil (keys : List String) : otherEntries keys (.object []) = [] := rfl

theorem otherEntries_insert (h : key ∈ keys) (v : Value) (m : Entries) :
    otherEntries keys (.object (Entries.insert key v m)) = otherEntries keys (.object m) := by
  show (Entries.insert key v m).filter _ = m.filter _
  have hkey : ∀ w m, ((key, w) :: m : Entries).filter (fun e => !keys.contains e.1) =
      m.filter fun e => !keys.contains e.1 := fun w m =>
    List.filter_cons_of_neg (by simpa using h)
  induction m with
  | nil => exact hkey v []
  | cons e m ih =>
    obtain ⟨k, w⟩ := e
    rw [Entries.insert]
    split_ifs with heq hlt
    · rw [hkey, heq, hkey]
    · rw [hkey]
    · rw [List.filter_cons, List.filter_cons, ih]

theorem otherEntries_insertSome (h : key ∈ keys) (v : Option Value) (m : Entries) :
    otherEntries keys (.object (Anthropic.insertSome key v m)) =
      otherEntries keys (.object m) := by
  cases v with
  | none => rfl
  | some v => exact otherEntries_insert h v m

theorem otherEntries_remove {m : Entries} (h : otherEntries keys (.object m) = []) (key : String) :
    otherEntries keys (.object (Entries.remove m key)) = [] :=
  List.filter_eq_nil_iff.mpr fun e he =>
    List.filter_eq_nil_iff.mp h e (List.mem_of_mem_filter he)

end OtherEntries

/-! ## Messages -/

section Messages

variable {α β γ δ : Type*} {J : SerdeJson} {msg : Value} {turns : List Utterance}

/-- Elements that are read one by one, and translated. -/
theorem mapM_map_eq_some {f : α → Option γ} {g : β → Option δ} {φ : α → β} {k : γ → δ}
    (h : ∀ a c, f a = some c → g (φ a) = some (k c)) {l : List α} {cs : List γ}
    (hl : l.mapM f = some cs) : (l.map φ).mapM g = some (cs.map k) := by
  induction l generalizing cs with
  | nil =>
    obtain rfl : [] = cs := by simpa using hl
    rfl
  | cons a l ih =>
    simp only [List.mapM_cons, Option.pure_def, Option.bind_eq_bind, Option.bind_eq_some_iff,
      Option.some.injEq] at hl
    obtain ⟨c, hc, cs, hcs, rfl⟩ := hl
    simp [h a c hc, ih hcs]

theorem filterMap_of_mapM {f : α → Option β} {l : List α} {bs : List β}
    (h : l.mapM f = some bs) : l.filterMap f = bs := by
  induction l generalizing bs with
  | nil => simpa using h
  | cons a l ih =>
    simp only [List.mapM_cons, Option.pure_def, Option.bind_eq_bind, Option.bind_eq_some_iff,
      Option.some.injEq] at h
    obtain ⟨b, hb, bs, hbs, rfl⟩ := h
    rw [List.filterMap_cons_some hb, ih hbs]

theorem asStr_string (s : String) : (Value.string s).asStr = some s := rfl

/-- A text that is read is a string, or left out. -/
theorem readText_eq_some {v : Option Value} {text : String} (h : readText v = some text) :
    v.bind Value.asStr = some text ∨ v.bind Value.asStr = none ∧ text = "" := by
  cases v with
  | none => exact .inr ⟨rfl, (Option.some.inj h).symm⟩
  | some v =>
    cases v with
    | null => exact .inr ⟨rfl, (Option.some.inj h).symm⟩
    | string s => exact .inl h
    | _ => cases h

/-- A list that is read is an array, or left out. -/
theorem readList_eq_some {v : Option Value} {vs : List Value} (h : readList v = some vs) :
    v.bind Value.asArray = some vs ∨ v.bind Value.asArray = none ∧ vs = [] := by
  cases v with
  | none => exact .inr ⟨rfl, (Option.some.inj h).symm⟩
  | some v =>
    cases v with
    | null => exact .inr ⟨rfl, (Option.some.inj h).symm⟩
    | array vs => exact .inl h
    | _ => cases h

/-- The messages of OpenAI that are read, by role. -/
inductive ReadsMessage (J : SerdeJson) (msg : Value) : List Utterance → Prop
  | user (text : String) (hrole : Anthropic.role msg = some "user")
      (htext : readText (msg.get "content") = some text) : ReadsMessage J msg (saying .user text)
  | assistant (text : String) (toolCalls : List Value) (calls : List Utterance)
      (hrole : Anthropic.role msg = some "assistant")
      (htext : readText (msg.get "content") = some text)
      (htoolCalls : readList (msg.get "tool_calls") = some toolCalls)
      (hcalls : toolCalls.mapM (callOfOpenAi J) = some calls) :
      ReadsMessage J msg (saying .assistant text ++ calls)
  | tool (id text : String) (hrole : Anthropic.role msg = some "tool")
      (htext : readText (msg.get "content") = some text)
      (hid : (msg.get "tool_call_id").bind Value.asStr = some id) :
      ReadsMessage J msg [.result id text]

theorem readsMessage_of_turnsOfOpenAi (h : turnsOfOpenAi J msg = some turns) :
    ReadsMessage J msg turns := by
  obtain ⟨role, hrole, hrest⟩ := Option.bind_eq_some_iff.mp h
  obtain ⟨text, htext, hturns⟩ := Option.bind_eq_some_iff.mp hrest
  clear h hrest
  split_ifs at hturns with huser hassistant htool
  · obtain rfl := Option.some.inj hturns
    exact .user text (huser ▸ hrole) htext
  · obtain ⟨toolCalls, htoolCalls, hrest⟩ := Option.bind_eq_some_iff.mp hturns
    obtain ⟨calls, hcalls, heq⟩ := Option.bind_eq_some_iff.mp hrest
    obtain rfl := Option.some.inj heq
    exact .assistant text toolCalls calls (hassistant ▸ hrole) htext htoolCalls hcalls
  · obtain ⟨id, hid, heq⟩ := Option.bind_eq_some_iff.mp hturns
    obtain rfl := Option.some.inj heq
    exact .tool id text (htool ▸ hrole) htext hid

end Messages

/-! ## Requests -/

/-- The request has these messages, model and tools, and asks what `q` says. -/
structure ReadsAs (J : SerdeJson) (request : Value) (messages entries : List Value) (model : Value)
    (system : List String) (turns : List (List Utterance)) (q : Inquiry) : Prop where
  messages_eq : request.get "messages" = some (.array messages)
  model_eq : request.get "model" = some model
  system_eq : (messages.filter hasSystemRole).mapM
    (fun msg => (msg.get "content").bind Value.asStr) = some system
  turns_eq : (messages.filter (!hasSystemRole ·)).mapM (turnsOfOpenAi J) = some turns
  maxTokens_eq : readCount (request.get "max_tokens") = some q.maxTokens
  stops_eq : readStop (request.get "stop") = some q.stops
  entries_eq : readList (request.get "tools") = some entries
  tools_eq : entries.mapM toolOfOpenAi = some q.tools
  inquiry_eq : q =
    { q with
      model := some model
      system := "\n".intercalate system
      turns := turns.flatten
      temperature := request.get "temperature"
      topP := request.get "top_p"
      stream := request.get "stream"
      toolUse :=
        if q.tools.isEmpty then .obliged .free else .ofOpenAi (request.get "tool_choice")
      others := otherEntries openAiKeys request }

theorem get_array_of_bind {v : Option Value} {vs : List Value}
    (h : v.bind Value.asArray = some vs) : v = some (.array vs) := by
  obtain ⟨w, rfl, hvs⟩ := Option.bind_eq_some_iff.mp h
  cases w with
  | array ws => exact congrArg (some ∘ Value.array) (Option.some.inj hvs)
  | _ => cases hvs

theorem readsAs_of_ofOpenAi {J : SerdeJson} {request : Value} {q : Inquiry}
    (h : Inquiry.ofOpenAi J request = some q) :
    ∃ messages entries model system turns,
      ReadsAs J request messages entries model system turns q := by
  obtain ⟨messages, hmessages, h1⟩ := Option.bind_eq_some_iff.mp h
  obtain ⟨model, hmodel, h2⟩ := Option.bind_eq_some_iff.mp h1
  obtain ⟨system, hsystem, h3⟩ := Option.bind_eq_some_iff.mp h2
  obtain ⟨turns, hturns, h4⟩ := Option.bind_eq_some_iff.mp h3
  obtain ⟨maxTokens, hmaxTokens, h5⟩ := Option.bind_eq_some_iff.mp h4
  obtain ⟨stops, hstops, h6⟩ := Option.bind_eq_some_iff.mp h5
  obtain ⟨entries, hentries, h7⟩ := Option.bind_eq_some_iff.mp h6
  obtain ⟨tools, htools, h8⟩ := Option.bind_eq_some_iff.mp h7
  obtain rfl := Option.some.inj h8
  exact ⟨messages, entries, model, system, turns, get_array_of_bind hmessages, hmodel, hsystem,
    hturns, hmaxTokens, hstops, hentries, htools, rfl⟩

theorem get_insertSome (key : String) (v : Option Value) (native : Entries) (k : String) :
    Entries.get (Anthropic.insertSome key v native) k =
      if key = k then v.or (Entries.get native k) else Entries.get native k := by
  cases v with
  | none => simp [Anthropic.insertSome]
  | some v => simp [Anthropic.insertSome, Entries.get_insert]

/-! ## A conversation with tools -/

/-- A question about the weather, with the call of a tool and its result. -/
def weatherRequest (stop : Value) : Value :=
  .json [("model", .string "claude"), ("stop", stop), ("top_p", .number (.posInt 1)),
    ("seed", .number (.posInt 7)),
    ("messages", .array [
      .json [("role", .string "system"), ("content", .string "Be brief.")],
      .json [("role", .string "user"), ("content", .string "Is it cold?")],
      .json [("role", .string "assistant"), ("content", .null),
        ("tool_calls", .array [.json [("id", .string "t1"), ("type", .string "function"),
          ("function", .json [("name", .string "weather"), ("arguments", .string "\x7b\x7d")])]])],
      .json [("role", .string "tool"), ("tool_call_id", .string "t1"),
        ("content", .string "-3")]]),
    ("tools", .array [.json [("type", .string "function"),
      ("function", .json [("name", .string "weather")])]]),
    ("tool_choice", .string "required")]

/-- What it asks. -/
def weatherInquiry : Inquiry where
  model := some (.string "claude")
  system := "Be brief."
  turns := [.say .user "Is it cold?", .call "t1" "weather" (.json []), .result "t1" "-3"]
  maxTokens := none
  temperature := none
  topP := some (.number (.posInt 1))
  stops := [.string "END"]
  stream := none
  tools := [⟨.string "weather", .string "",
    .json [("type", .string "object"), ("properties", .json [])]⟩]
  toolUse := .obliged .someTool
  others := [("seed", .number (.posInt 7))]

/-- A stop can be a text, or a list of texts. -/
theorem ofOpenAi_weatherRequest :
    Inquiry.ofOpenAi (.ofTable [.json []]) (weatherRequest (.string "END")) =
        some weatherInquiry ∧
      Inquiry.ofOpenAi (.ofTable [.json []]) (weatherRequest (.array [.string "END"])) =
        some weatherInquiry :=
  ⟨rfl, rfl⟩

end Melis.Transpiler
