import Melis.Compactor.NonEmpty
import Melis.Compactor.SlidingWindow
import Melis.Router.Frame

/-!
# What compaction leaves of the messages

`SimpleCompactor` falls back to the last message where nothing else is left.
`SemanticGuardedCompactor` has no such fallback, and the handler forwards what
either of them returns.

* `neverEmpty_iff`: when no empty `messages` array is forwarded.
* `greeting_removed`: an assistant message on its own is removed.
* `strategyObeyed_iff`: when `none` forwards the client's messages and
  `sliding_window` keeps the window.
* `window_trimmed`: with either strategy a message in the window is dropped.
-/

namespace Melis.Router

open Compactor Lib

/-! ## An empty `messages` array -/

/-- Neither compactor returns an empty list for `messages`, and no payload with
    these messages is forwarded with an empty array. -/
structure NeverEmpty (U : Unicode) (messages : List CompactMessage) (config : CompactorConfig) :
    Prop where
  simple : (SimpleCompactor.compact U messages config).messages ≠ []
  semantic : (SemanticGuardedCompactor.compact .nearest U messages config).messages ≠ []
  forwarded : ∀ payload resolved, validateChatPayload payload = .ok () →
    (messagesOf payload).map (·.filterMap toCompactMessage) = some messages →
    resolved.effectiveTokenConfig = config →
    messagesOf (forwardPayload U resolved payload) ≠ some []

/-- The handler forwards an empty array only if the compactor it runs returns
    one. -/
theorem forwarded_ne_nil {U : Unicode} {payload : Value} {resolved : ResolvedRoute}
    {messages : List CompactMessage} (h : validateChatPayload payload = .ok ())
    (hmessages : (messagesOf payload).map (·.filterMap toCompactMessage) = some messages)
    (hne : (runCompactor U resolved.effectiveTokenConfig messages).messages ≠ []) :
    messagesOf (forwardPayload U resolved payload) ≠ some [] := by
  obtain ⟨obj, -, sent, rfl, -, hget, hsent, hvalid⟩ := validateChatPayload_ok h
  rw [messagesOf_object hget] at hmessages
  obtain rfl := Option.some.inj hmessages
  rcases messagesOf_forwardPayload hget hsent hvalid U resolved with ⟨-, hout⟩ | ⟨-, hout⟩
  · simpa [hout] using hne
  · simpa [hout] using hsent

/-- **Nonempty messages.** The simple compactor always leaves a message. The
    semantic one, and with it the handler, does so exactly if the history is below
    the threshold, a message is protected, or the message that would be removed
    last fits a target above zero. -/
theorem neverEmpty_iff (U : Unicode) {messages : List CompactMessage} (hne : messages ≠ [])
    (config : CompactorConfig) :
    NeverEmpty U messages config ↔
      SemanticGuardedCompactor.LeavesSome .nearest U messages config := by
  rw [← SemanticGuardedCompactor.semantic_ne_nil_iff hne]
  refine ⟨NeverEmpty.semantic, fun hsemantic => ⟨simple_ne_nil U hne config, hsemantic, ?_⟩⟩
  rintro payload resolved h hmessages rfl
  refine forwarded_ne_nil h hmessages ?_
  unfold runCompactor
  split_ifs
  · exact hsemantic
  · exact simple_ne_nil U hne _

open SemanticGuardedCompactor in
/-- The last question of `conversation` is protected. -/
theorem neverEmpty_iff_conversation : NeverEmpty Unicode.ascii conversation halfConfig :=
  (neverEmpty_iff Unicode.ascii (List.cons_ne_nil _ _) halfConfig).mpr
    (.inr (.inl ⟨2, _, rfl, .inr (.inl rfl)⟩))

/-- A greeting of the assistant. -/
def greeting : List CompactMessage := [{ role := "assistant", content := "Hello there" }]

/-- It is forwarded as an empty array. -/
def greetingPayload : Value :=
  .json [("model", .string "gpt-4o"),
    ("messages", .array
      [.json [("role", .string "assistant"), ("content", .string "Hello there")]])]

/-- The semantic strategy with `halfConfig`. -/
def halfRoute : ResolvedRoute where
  model := "gpt-4o"
  effectiveTokenConfig :=
    { SemanticGuardedCompactor.halfConfig with strategy := "semantic_guarded_trimming" }
  providers := []

/-- Nothing is left of the greeting: the semantic compactor removes it, and the
    payload is forwarded without messages. -/
theorem greeting_removed :
    (SemanticGuardedCompactor.compact .nearest Unicode.ascii greeting
      halfRoute.effectiveTokenConfig).messages = [] ∧
    validateChatPayload greetingPayload = .ok () ∧
    messagesOf (forwardPayload Unicode.ascii halfRoute greetingPayload) = some [] ∧
    ¬ NeverEmpty Unicode.ascii greeting halfRoute.effectiveTokenConfig := by
  have hremoved : (SemanticGuardedCompactor.compact .nearest Unicode.ascii greeting
      halfRoute.effectiveTokenConfig).messages = [] := by decide +kernel
  have hlength : (messagesOf (forwardPayload Unicode.ascii halfRoute greetingPayload)).map
      List.length = some 0 := by decide +kernel
  obtain ⟨out, hout, hzero⟩ := Option.map_eq_some_iff.mp hlength
  rw [hout, List.length_eq_zero_iff.mp hzero]
  exact ⟨hremoved, rfl, rfl, fun h => h.semantic hremoved⟩

/-! ## The strategies `none` and `sliding_window` -/

/-- `m'` has the fields of `m`. -/
def SameObject (m m' : Value) : Prop := ∀ k, m'.get k = m.get k

/-- `m'` has the role and the content of `m`. -/
def Unaltered (m m' : Value) : Prop :=
  m'.get "role" = m.get "role" ∧ m'.get "content" = m.get "content"

/-- `out` is what the strategy permits to forward for `messages`: with `none` the
    same messages; with `sliding_window` messages in order and unaltered, the last
    `max_history_messages` non-system messages among them. -/
structure ObeysStrategy (config : CompactorConfig) (messages out : List Value) : Prop where
  none : config.strategy = "none" → List.Forall₂ SameObject messages out
  slidingWindow : config.strategy = "sliding_window" →
    ∃ is, Selects Unaltered messages is out ∧ ∀ i,
      SimpleCompactor.InWindow config.maxHistoryMessages (messages.filterMap toCompactMessage) i →
        i ∈ is

/-- The messages forwarded for `payload` obey the strategy of its route. -/
def StrategyObeyed (U : Unicode) (resolved : ResolvedRoute) (payload : Value) : Prop :=
  ∃ messages out, messagesOf payload = some messages ∧
    messagesOf (forwardPayload U resolved payload) = some out ∧
    ObeysStrategy resolved.effectiveTokenConfig messages out

/-- When compaction does nothing else: with `none` it does not fire, or the messages
    are plain and it leaves them all; with `sliding_window` it leaves the window. -/
structure WithinStrategy (U : Unicode) (config : CompactorConfig) (messages : List Value) :
    Prop where
  none : config.strategy = "none" →
    ¬ Fires config (messages.filterMap toCompactMessage) ∨
      (∀ m ∈ messages, Plain m) ∧
        SimpleCompactor.LeavesAll U (messages.filterMap toCompactMessage) config
  slidingWindow : config.strategy = "sliding_window" →
    SimpleCompactor.LeavesWindow U (messages.filterMap toCompactMessage) config

section Projected

variable {messages : List Value} {projected out : List CompactMessage}

theorem unaltered_ofCompactMessage {m : Value} {c c' : CompactMessage}
    (hm : toCompactMessage m = some c) : Unaltered m (ofCompactMessage c') ↔ c' = c := by
  obtain ⟨hrole, hcontent⟩ := toCompactMessage_eq_some.mp hm
  rw [Unaltered, get_ofCompactMessage, get_ofCompactMessage, if_pos rfl, if_neg (by decide),
    if_pos rfl, hrole, hcontent]
  obtain ⟨role, content⟩ := c
  obtain ⟨role', content'⟩ := c'
  simp

theorem sameObject_ofCompactMessage {m : Value} {c c' : CompactMessage}
    (hm : toCompactMessage m = some c) :
    SameObject m (ofCompactMessage c') ↔ Plain m ∧ c' = c := by
  rw [← unaltered_ofCompactMessage hm]
  constructor
  · refine fun h => ⟨fun k hrole hcontent => ?_, h "role", h "content"⟩
    rw [← h k, get_ofCompactMessage, if_neg hrole, if_neg hcontent]
  · rintro ⟨hplain, hrole, hcontent⟩ k
    by_cases hkr : k = "role"
    · rw [hkr, hrole]
    by_cases hkc : k = "content"
    · rw [hkc, hcontent]
    rw [get_ofCompactMessage, if_neg hkr, if_neg hkc, hplain k hkr hkc]

variable (hproj : List.Forall₂ (fun m c => toCompactMessage m = some c) messages projected)
include hproj

/-- The rebuilt objects are the client's if these are plain and nothing changed. -/
theorem forall₂_sameObject_iff :
    List.Forall₂ SameObject messages (out.map ofCompactMessage) ↔
      (∀ m ∈ messages, Plain m) ∧ out = projected := by
  induction hproj generalizing out with
  | nil => simp
  | cons hm _ ih =>
    cases out with
    | nil => simp
    | cons c' out =>
      rw [List.map_cons, List.forall₂_cons, ih, sameObject_ofCompactMessage hm,
        List.forall_mem_cons, List.cons_eq_cons]
      tauto

/-- The rebuilt objects are unaltered if the compactor altered nothing. -/
theorem selects_unaltered_iff {is : List ℕ} :
    Selects Unaltered messages is (out.map ofCompactMessage) ↔
      Selects (fun c c' => c' = c) projected is out := by
  constructor
  · rintro ⟨hincr, hentries⟩
    refine ⟨hincr, (List.forall₂_map_right_iff.mp hentries).imp ?_⟩
    rintro i c' ⟨m, hm, hun⟩
    obtain ⟨hi, rfl⟩ := List.getElem?_eq_some_iff.mp hm
    have hi' : i < projected.length := hproj.length_eq ▸ hi
    have hc := hproj.get hi hi'
    exact ⟨projected[i], List.getElem?_eq_getElem hi', (unaltered_ofCompactMessage hc).mp hun⟩
  · rintro ⟨hincr, hentries⟩
    refine ⟨hincr, List.forall₂_map_right_iff.mpr (hentries.imp ?_)⟩
    rintro i c' ⟨c, hc, rfl⟩
    obtain ⟨hi, rfl⟩ := List.getElem?_eq_some_iff.mp hc
    have hi' : i < messages.length := hproj.length_eq ▸ hi
    have hm := hproj.get hi' hi
    exact ⟨messages[i], List.getElem?_eq_getElem hi', (unaltered_ofCompactMessage hm).mpr rfl⟩

end Projected

/-- The messages of an accepted payload have tokens. -/
theorem totalTokens_pos {messages : List Value} (hne : messages ≠ [])
    (hall : ∀ m ∈ messages, AcceptedMessage m) :
    0 < totalTokens (messages.filterMap toCompactMessage) := by
  obtain ⟨m, ms, rfl⟩ := List.exists_cons_of_ne_nil hne
  have haccepted := hall m List.mem_cons_self
  obtain ⟨role, content, hrole, hcontent⟩ := haccepted.valid
  have hm : toCompactMessage m = some ⟨role, content⟩ :=
    toCompactMessage_eq_some.mpr ⟨hrole, hcontent⟩
  have hpos : role ≠ "" := by
    have := haccepted.1
    rwa [hrole, nonEmptyString_string_iff] at this
  have hrole : 0 < countTokens role := by
    have hlen : Text.len role ≠ 0 :=
      fun h => hpos (Text.isEmpty_iff.mp (by rw [Text.isEmpty, h, beq_self_eq_true]))
    simp only [countTokens, if_neg hlen]
    omega
  rw [List.filterMap_cons_some hm, totalTokens, List.map_cons, List.sum_cons]
  exact Nat.add_pos_left (Nat.add_pos_left hrole _) _

/-- With these strategies the simple compactor runs. -/
theorem runCompactor_of_ne {config : CompactorConfig}
    (h : config.strategy ≠ "semantic_guarded_trimming") (U : Unicode)
    (messages : List CompactMessage) :
    runCompactor U config messages = SimpleCompactor.compact U messages config := by
  rw [runCompactor, if_neg (by simpa using h)]

section Strategy

variable {U : Unicode} {resolved : ResolvedRoute} {obj : Entries} {messages out : List Value}

/-- With `none` the client's messages are forwarded only if compaction does not
    fire, or has nothing to do. -/
theorem none_iff (hget : Entries.get obj "messages" = some (.array messages))
    (hne : messages ≠ []) (hall : ∀ m ∈ messages, AcceptedMessage m)
    (hout : messagesOf (forwardPayload U resolved (.object obj)) = some out)
    (hstrategy : resolved.effectiveTokenConfig.strategy = "none") :
    List.Forall₂ SameObject messages out ↔
      ¬ Fires resolved.effectiveTokenConfig (messages.filterMap toCompactMessage) ∨
        (∀ m ∈ messages, Plain m) ∧ SimpleCompactor.LeavesAll U
          (messages.filterMap toCompactMessage) resolved.effectiveTokenConfig := by
  have hvalid : ∀ m ∈ messages, ValidMessage m := fun m hm => (hall m hm).valid
  have hproj := filterMap_toCompactMessage hvalid
  have hrun : ∀ ms, runCompactor U resolved.effectiveTokenConfig ms =
      SimpleCompactor.compact U ms resolved.effectiveTokenConfig :=
    runCompactor_of_ne (by rw [hstrategy]; decide) U
  rcases messagesOf_forwardPayload hget hne hvalid U resolved with
    ⟨hfires, hfwd⟩ | ⟨hfires, hfwd⟩ <;> obtain rfl := Option.some.inj (hfwd.symm.trans hout)
  · have htokens := totalTokens_pos hne hall
    have hprojected : messages.filterMap toCompactMessage ≠ [] := by
      intro hnil
      rw [hnil] at htokens
      cases htokens
    have hcompressed := (wasCompressed_iff U hprojected _).mpr hfires
    rw [hrun] at hcompressed ⊢
    rw [or_iff_right (not_not.mpr hfires), forall₂_sameObject_iff hproj,
      SimpleCompactor.compact_messages_eq_self_iff htokens hcompressed]
  · exact iff_of_true (List.forall₂_same.mpr fun _ _ _ => rfl) (.inl hfires)

/-- With `sliding_window` the window is forwarded only if the compactor leaves it. -/
theorem slidingWindow_iff (hget : Entries.get obj "messages" = some (.array messages))
    (hne : messages ≠ []) (hvalid : ∀ m ∈ messages, ValidMessage m)
    (hout : messagesOf (forwardPayload U resolved (.object obj)) = some out)
    (hstrategy : resolved.effectiveTokenConfig.strategy = "sliding_window") :
    (∃ is, Selects Unaltered messages is out ∧ ∀ i, SimpleCompactor.InWindow
        resolved.effectiveTokenConfig.maxHistoryMessages
        (messages.filterMap toCompactMessage) i → i ∈ is) ↔
      SimpleCompactor.LeavesWindow U (messages.filterMap toCompactMessage)
        resolved.effectiveTokenConfig := by
  have hproj := filterMap_toCompactMessage hvalid
  have hrun : ∀ ms, runCompactor U resolved.effectiveTokenConfig ms =
      SimpleCompactor.compact U ms resolved.effectiveTokenConfig :=
    runCompactor_of_ne (by rw [hstrategy]; decide) U
  rw [← SimpleCompactor.compact_keepsWindow_iff, SimpleCompactor.KeepsWindow]
  rcases messagesOf_forwardPayload hget hne hvalid U resolved with
    ⟨-, hfwd⟩ | ⟨hfires, hfwd⟩ <;> obtain rfl := Option.some.inj (hfwd.symm.trans hout)
  · simp only [hrun, selects_unaltered_iff hproj]
  · -- an uncompressed result is the input
    have hprojected : messages.filterMap toCompactMessage ≠ [] := by
      intro hnil
      rw [hnil] at hproj
      exact hne (List.forall₂_nil_right_iff.mp hproj)
    have hcompressed := mt (wasCompressed_iff U hprojected _).mp hfires
    rw [hrun] at hcompressed
    rw [((SimpleCompactor.compact_accounted U _ _).skip (Bool.eq_false_iff.mpr hcompressed)).1]
    refine iff_of_true ?_ (SimpleCompactor.keepsWindow_self _ _)
    refine ⟨_, selects_self (R := Unaltered) (fun _ => ⟨rfl, rfl⟩) _, ?_⟩
    rintro i ⟨c, hc, -⟩
    rw [List.mem_range, hproj.length_eq]
    exact (List.getElem?_eq_some_iff.mp hc).1

end Strategy

/-- **Strategies.** The handler runs the same compactor for `none`, for
    `sliding_window` and for `adaptive_trimming`. What it forwards for an accepted
    payload is what the strategy permits exactly if that compactor happens to do
    nothing else. -/
theorem strategyObeyed_iff (U : Unicode) (resolved : ResolvedRoute) {payload : Value}
    (h : validateChatPayload payload = .ok ()) :
    StrategyObeyed U resolved payload ↔
      ∃ messages, messagesOf payload = some messages ∧
        WithinStrategy U resolved.effectiveTokenConfig messages := by
  obtain ⟨-, messages, hmessages, hne, hall⟩ := validateChatPayload_iff.mp h
  obtain ⟨obj, -, messages', rfl, -, hget, -, hvalid⟩ := validateChatPayload_ok h
  obtain rfl : messages' = messages := by
    rw [Value.get_object, hget] at hmessages
    cases hmessages
    rfl
  obtain ⟨out, -, hout, -⟩ := forwardPayload_selects hget hne hvalid U resolved
  have hobeys : ObeysStrategy resolved.effectiveTokenConfig messages' out ↔
      WithinStrategy U resolved.effectiveTokenConfig messages' := by
    constructor
    · exact fun ⟨hnone, hsliding⟩ =>
        ⟨fun hs => (none_iff hget hne hall hout hs).mp (hnone hs),
          fun hs => (slidingWindow_iff hget hne hvalid hout hs).mp (hsliding hs)⟩
    · exact fun ⟨hnone, hsliding⟩ =>
        ⟨fun hs => (none_iff hget hne hall hout hs).mpr (hnone hs),
          fun hs => (slidingWindow_iff hget hne hvalid hout hs).mpr (hsliding hs)⟩
  constructor
  · rintro ⟨ms, out', hms, hout', hobey⟩
    obtain rfl := Option.some.inj ((messagesOf_object hget).symm.trans hms)
    obtain rfl := Option.some.inj (hout.symm.trans hout')
    exact ⟨_, hms, hobeys.mp hobey⟩
  · rintro ⟨ms, hms, hwithin⟩
    obtain rfl := Option.some.inj ((messagesOf_object hget).symm.trans hms)
    exact ⟨_, out, hms, hout, hobeys.mpr hwithin⟩

/-- The given strategy with a window of twenty messages and no threshold. -/
def strategyRoute (strategy : String) : ResolvedRoute where
  model := "gpt-4o"
  effectiveTokenConfig := { CompactorConfig.default with tokenThreshold := 0, strategy := strategy }
  providers := []

/-- One question: there is nothing to remove. -/
theorem strategyObeyed_iff_question :
    StrategyObeyed Unicode.ascii (strategyRoute "sliding_window")
      (.json [("model", .string "gpt-4o"), ("messages", .array question)]) := by
  refine (strategyObeyed_iff Unicode.ascii _ rfl).mpr ⟨question, rfl, ⟨fun h => ?_, fun _ => ?_⟩⟩
  · exact absurd h (by decide)
  · exact .inr (.inl (SimpleCompactor.fixed_iff.mpr (by decide +kernel)))

/-- A greeting and a question. -/
def greetedQuestion : List Value :=
  [.json [("role", .string "assistant"), ("content", .string "Hello there")],
    .json [("role", .string "user"), ("content", .string "what is 2 + 2?")]]

def greetedPayload : Value :=
  .json [("model", .string "gpt-4o"), ("messages", .array greetedQuestion)]

/-- With either strategy the greeting is dropped, though it is well within the
    window. -/
theorem window_trimmed :
    validateChatPayload greetedPayload = .ok () ∧
    (∀ strategy ∈ ["none", "sliding_window"],
      (messagesOf (forwardPayload Unicode.ascii (strategyRoute strategy) greetedPayload)).map
        List.length = some 1) ∧
    ¬ StrategyObeyed Unicode.ascii (strategyRoute "none") greetedPayload ∧
    ¬ StrategyObeyed Unicode.ascii (strategyRoute "sliding_window") greetedPayload := by
  have hlength : ∀ strategy ∈ ["none", "sliding_window"],
      (messagesOf (forwardPayload Unicode.ascii (strategyRoute strategy) greetedPayload)).map
        List.length = some 1 := by decide +kernel
  refine ⟨rfl, hlength, ?_, ?_⟩ <;> rintro ⟨messages, out, hmessages, hout, hobeys⟩ <;>
    obtain rfl : greetedQuestion = messages := Option.some.inj hmessages
  · have hone := hlength "none" (by decide)
    rw [hout] at hone
    cases (hobeys.none rfl).length_eq.trans (Option.some.inj hone)
  · have hone := hlength "sliding_window" (by decide)
    rw [hout] at hone
    obtain ⟨is, hsel, hkeep⟩ := hobeys.slidingWindow rfl
    obtain ⟨k, hk⟩ := List.length_eq_one_iff.mp (hsel.length_eq.trans (Option.some.inj hone))
    have h0 : 0 ∈ is := hkeep 0 ⟨_, rfl, by decide, by decide⟩
    have h1 : 1 ∈ is := hkeep 1 ⟨_, rfl, by decide, by decide⟩
    rw [hk, List.mem_singleton] at h0 h1
    omega

end Melis.Router
