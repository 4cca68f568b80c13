import Melis.Compactor.Accounting
import Melis.Router.Frame
import Melis.Router.Metering
import Melis.Router.Progress

/-!
# What the counters say

The counters of the registry in terms of the requests, in every run.

* `context_tokens_run`: the tokens that came in, that were forwarded and that
  were saved add up.
* `failover_run`: the failovers counted are the results that the breaker was told.
* `requests_run`: only responses are counted, and no error is.
-/

namespace Melis.Router

open CircuitBreaker Client Compactor Observability

/-! ## Tokens -/

/-- The tokens of a payload's messages, as the compactors count them. -/
def payloadTokens (payload : Value) : ℕ :=
  ((messagesOf payload).map fun messagesArr =>
    totalTokens (messagesArr.filterMap toCompactMessage)).getD 0

/-- The tokens of an accepted payload that came in. -/
def Thread.tokensIn (t : Thread) : ℕ :=
  match validateChatPayload t.req.payload with
  | .ok () => payloadTokens t.req.payload
  | .error _ => 0

/-- The tokens of the payload that an accepted request forwards. -/
def Thread.tokensOut (t : Thread) : ℕ :=
  match validateChatPayload t.req.payload with
  | .ok () => payloadTokens t.job.payload
  | .error _ => 0

section Tokens

theorem runCompactor_accounted (U : Unicode) (config : CompactorConfig)
    (messages : List CompactMessage) : Accounted messages (runCompactor U config messages) := by
  unfold runCompactor
  split_ifs
  · exact SemanticGuardedCompactor.compact_accounted .nearest U messages config
  · exact SimpleCompactor.compact_accounted U messages config

theorem filterMap_ofCompactMessage (messages : List CompactMessage) :
    (messages.map ofCompactMessage).filterMap toCompactMessage = messages := by
  rw [List.filterMap_map, List.filterMap_congr fun m _ => ?_, List.filterMap_some]
  refine toCompactMessage_eq_some.mpr ⟨?_, ?_⟩
  · rw [get_ofCompactMessage, if_pos rfl]
  · rw [get_ofCompactMessage, if_neg (by decide), if_pos rfl]

/-- What is forwarded has the tokens that the compactor reports. -/
theorem payloadTokens_compactPayload (U : Unicode) (config : CompactorConfig) {payload : Value}
    {messagesArr : List Value} (hmessages : messagesOf payload = some messagesArr) :
    payloadTokens (compactPayload U config payload) =
      (runCompactor U config (messagesArr.filterMap toCompactMessage)).finalTokens := by
  have haccount := runCompactor_accounted U config (messagesArr.filterMap toCompactMessage)
  unfold compactPayload
  rw [hmessages]
  dsimp only
  split_ifs with hcompressed
  · cases payload with
    | object obj =>
      rw [payloadTokens, messagesOf_set, Option.map_some, Option.getD_some,
        filterMap_ofCompactMessage, haccount.final_eq]
    | _ => cases hmessages
  · obtain ⟨-, -, hsame⟩ := haccount.skip (Bool.eq_false_iff.mpr hcompressed)
    rw [payloadTokens, hmessages, hsame, haccount.original_eq]
    rfl

/-- The token counts of one compaction, after any number of its updates. -/
theorem compactionSamples_take (U : Unicode) (config : CompactorConfig) (payload : Value) (k : ℕ) :
    tally ((compactionSamples U config payload).take k) ⟨.contextFinalTokens, []⟩ +
        tally ((compactionSamples U config payload).take k) ⟨.contextSavedTokensTotal, []⟩ ≤
      tally ((compactionSamples U config payload).take k) ⟨.contextOriginalTokens, []⟩ := by
  unfold compactionSamples
  split
  · next messagesArr hmessages =>
    have hle :=
      (runCompactor_accounted U config (messagesArr.filterMap toCompactMessage)).final_le
    dsimp only
    split_ifs <;> rcases k with _ | _ | _ | _ | _ | _ | k <;>
      simp [once, incBy] <;> omega
  · rcases k with _ | k <;> simp [once]

/-- The token counts of one compaction. -/
theorem compactionSamples_tokens (U : Unicode) (config : CompactorConfig) (payload : Value) :
    tally (compactionSamples U config payload) ⟨.contextOriginalTokens, []⟩ =
        payloadTokens payload ∧
      tally (compactionSamples U config payload) ⟨.contextFinalTokens, []⟩ =
        payloadTokens (compactPayload U config payload) ∧
      tally (compactionSamples U config payload) ⟨.contextSavedTokensTotal, []⟩ =
        payloadTokens payload - payloadTokens (compactPayload U config payload) := by
  cases hmessages : messagesOf payload with
  | none =>
    have hsame : compactPayload U config payload = payload := by rw [compactPayload, hmessages]
    rw [hsame, payloadTokens, compactionSamples, hmessages]
    simp [once]
  | some messagesArr =>
    have haccount := runCompactor_accounted U config (messagesArr.filterMap toCompactMessage)
    rw [payloadTokens_compactPayload U config hmessages, payloadTokens, compactionSamples,
      hmessages]
    dsimp only [Option.map_some, Option.getD_some]
    rw [← haccount.original_eq]
    split_ifs with hcompressed
    · simp [once, incBy]
    · obtain ⟨-, -, hsame⟩ := haccount.skip (Bool.eq_false_iff.mpr hcompressed)
      simp [once, incBy, hsame]

theorem payloadTokens_overrideModel (payload : Value) (model : String) :
    payloadTokens (overrideModel payload model) = payloadTokens payload := by
  cases payload with
  | object obj => rw [payloadTokens, payloadTokens, messagesOf_overrideModel]
  | _ => rfl

/-- The counters of the tokens. -/
def contextMetrics : List Metric :=
  [.contextOriginalTokens, .contextFinalTokens, .contextSavedTokensTotal]

/-- Only the compaction counts tokens, at any time. -/
theorem tally_take_context {t : Thread} {metric : Metric} (h : metric ∈ contextMetrics) (k : ℕ) :
    tally (t.samples.take k) ⟨metric, []⟩ =
      tally ((t.gateway.compactionSamples t.req).take k) ⟨metric, []⟩ := by
  have hrest : ∀ x ∈ t.phase.samples t.job ++ t.phase.exitSamples t.req t.providerTypeUsed,
      x.Of (attemptMetrics ++ exitMetrics) := by
    refine List.forall_mem_append.mpr ⟨fun x hx => ?_, fun x hx => ?_⟩
    · exact (phase_of _ _ x hx).imp_right (List.mem_append_left _)
    · exact (exit_of _ _ _ x hx).imp_right (List.mem_append_right _)
  rw [Thread.samples, List.take_append, tally_append,
    tally_of (fun x hx => hrest x (List.mem_of_mem_take hx)) ?_, Nat.add_zero]
  revert metric
  decide

theorem Thread.Metered.emitted_take {t : Thread} (h : t.Metered) :
    t.samples.take t.emitted.length = t.emitted := by
  rw [← h.account, List.take_left]

/-- A request never counts more tokens as forwarded or saved than it has counted
    as come in. -/
theorem Thread.Metered.tokens_le {t : Thread} (h : t.Metered) :
    tally t.emitted ⟨.contextFinalTokens, []⟩ + tally t.emitted ⟨.contextSavedTokensTotal, []⟩ ≤
      tally t.emitted ⟨.contextOriginalTokens, []⟩ := by
  rw [← h.emitted_take, tally_take_context (by decide), tally_take_context (by decide),
    tally_take_context (by decide), Gateway.compactionSamples]
  split
  · exact compactionSamples_take ..
  · simp

/-- The tokens that a request has counted when no update waits. -/
theorem Thread.Metered.tokens_eq {t : Thread} (h : t.Metered) (hpending : t.pending = []) :
    tally t.emitted ⟨.contextOriginalTokens, []⟩ = t.tokensIn ∧
      tally t.emitted ⟨.contextFinalTokens, []⟩ = t.tokensOut ∧
      tally t.emitted ⟨.contextSavedTokensTotal, []⟩ = t.tokensIn - t.tokensOut := by
  have hsamples : t.emitted = t.samples.take t.samples.length := by
    rw [List.take_length, ← h.account, hpending, List.append_nil]
  have hlength : (t.gateway.compactionSamples t.req).length ≤ t.samples.length := by
    rw [Thread.samples, List.length_append]
    exact Nat.le_add_right _ _
  rw [hsamples, tally_take_context (by decide), tally_take_context (by decide),
    tally_take_context (by decide), List.take_of_length_le hlength, Gateway.compactionSamples,
    Thread.tokensIn, Thread.tokensOut]
  cases validateChatPayload t.req.payload with
  | error e => exact ⟨rfl, rfl, rfl⟩
  | ok u =>
    have htokens := compactionSamples_tokens t.gateway.U
      (t.gateway.resolve t.req).effectiveTokenConfig
      (overrideModel t.req.payload (t.gateway.resolve t.req).model)
    rw [payloadTokens_overrideModel] at htokens
    exact htokens

end Tokens

section Runs

variable {Contents : Type*} {U : Unicode} {J : SerdeJson} {config : GatewayConfig}
  {loadRoutes : Contents → Option RouteConfigFile} {w₀ : AppState Contents}
  {p : Requests Contents}
  {tr : List (RunStep Contents)}

theorem forall_metered
    (hrun : Lib.Run (Lib.pool (handlers U J config loadRoutes)) ⟨[], w₀⟩ tr p) :
    ∀ t ∈ p.threads, t.Metered := by
  intro t ht
  obtain ⟨i, hi⟩ := List.mem_iff_getElem?.mp ht
  exact thread_metered hrun hi

/-- A series of a fresh registry that every request has counted as `m`. -/
theorem registry_of_emitted
    (hrun : Lib.Run (Lib.pool (handlers U J config loadRoutes)) ⟨[], w₀⟩ tr p)
    (hfresh : w₀.registry = .new) {series : Series} {m : Thread → ℕ}
    (h : ∀ t ∈ p.threads, tally t.emitted series = m t) :
    p.shared.registry series = UInt64.ofNat (p.total m) := by
  rw [registry_total hrun, hfresh, updates, Lib.total_congr h]
  exact zero_add _

theorem tokensOut_le
    (hrun : Lib.Run (Lib.pool (handlers U J config loadRoutes)) ⟨[], w₀⟩ tr p) {t : Thread}
    (ht : t ∈ p.threads) (hpending : t.pending = []) : t.tokensOut ≤ t.tokensIn := by
  have hle := (forall_metered hrun t ht).tokens_le
  obtain ⟨hin, hout, hsaved⟩ := (forall_metered hrun t ht).tokens_eq hpending
  rw [hin, hout, hsaved] at hle
  omega

/-- **Tokens saved.** At every moment of every run, the tokens counted as forwarded
    and as saved are no more than those counted as come in. Whenever no update
    waits, the three counters are the tokens of the accepted payloads, of the
    payloads forwarded for them, and of what compaction has taken away. -/
theorem context_tokens_run
    (hrun : Lib.Run (Lib.pool (handlers U J config loadRoutes)) ⟨[], w₀⟩ tr p)
    (hfresh : w₀.registry = .new) :
    updates p ⟨.contextFinalTokens, []⟩ + updates p ⟨.contextSavedTokensTotal, []⟩ ≤
        updates p ⟨.contextOriginalTokens, []⟩ ∧
      ((∀ t ∈ p.threads, t.pending = []) →
        p.shared.registry ⟨.contextOriginalTokens, []⟩ = UInt64.ofNat (p.total Thread.tokensIn) ∧
        p.shared.registry ⟨.contextFinalTokens, []⟩ = UInt64.ofNat (p.total Thread.tokensOut) ∧
        p.shared.registry ⟨.contextSavedTokensTotal, []⟩ =
          UInt64.ofNat (p.total fun t => t.tokensIn - t.tokensOut) ∧
        ∀ t ∈ p.threads, t.tokensOut ≤ t.tokensIn) := by
  have hmetered := forall_metered hrun
  refine ⟨?_, fun hpending => ⟨?_, ?_, ?_, fun t ht => tokensOut_le hrun ht (hpending t ht)⟩⟩
  · unfold updates
    rw [← Lib.total_add]
    exact Lib.total_le fun t ht => (hmetered t ht).tokens_le
  · exact registry_of_emitted hrun hfresh fun t ht =>
      ((hmetered t ht).tokens_eq (hpending t ht)).1
  · exact registry_of_emitted hrun hfresh fun t ht =>
      ((hmetered t ht).tokens_eq (hpending t ht)).2.1
  · exact registry_of_emitted hrun hfresh fun t ht =>
      ((hmetered t ht).tokens_eq (hpending t ht)).2.2

end Runs

/-- A conversation that is longer than the window of the default configuration. -/
def longConversation : ChatRequest :=
  { questionTo "gpt-4o" false with
    payload := .json [("model", .string "gpt-4o"), ("messages", .array
      (List.replicate 21 (.json [("role", .string "user"), ("content", .string "hello")]) ++
        question))] }

/-- The conversation comes in and is compacted. -/
def compactedConversation :
    List (Lib.PoolEvent ChatRequest Action (RouteConfig.Event RouteConfigFile)) :=
  .arrive longConversation :: List.replicate 6 (.act 0 .emit)

theorem compactedConversation_run :
    Lib.Run (Lib.pool exampleHandlers) ⟨[], freshState⟩
      ((Lib.pool exampleHandlers).trace ⟨[], freshState⟩ compactedConversation)
      (compactedConversation.foldl (Lib.pool exampleHandlers).step ⟨[], freshState⟩) := by
  refine Lib.run_trace _ _ _ ?_
  unfold exampleHandlers
  decide +kernel

/-- The window drops two messages, and their tokens are counted as saved. -/
theorem context_tokens_run_compactedConversation :
    let p := compactedConversation.foldl (Lib.pool exampleHandlers).step ⟨[], freshState⟩
    p.shared.registry ⟨.contextOriginalTokens, []⟩ = 68 ∧
      p.shared.registry ⟨.contextSavedTokensTotal, []⟩ = 6 := by
  intro p
  obtain ⟨horiginal, -, hsaved, -⟩ :=
    (context_tokens_run compactedConversation_run rfl).2 (by decide +kernel)
  have htotals : p.total Thread.tokensIn = 68 ∧
      (p.total fun t => t.tokensIn - t.tokensOut) = 6 := by decide +kernel
  rw [horiginal, hsaved, htotals.1, htotals.2]
  exact ⟨rfl, rfl⟩

/-! ## Failovers -/

/-- The attempts of a request so far, without the one it is at. -/
def Phase.attempts : Phase → List Attempt
  | .select _ s => s.attempts
  | .ask _ s _ => s.attempts
  | .send _ s _ => s.attempts
  | .await _ s _ _ => s.attempts
  | .record _ s _ _ _ => s.attempts
  | .finished s _ => s.attempts

/-- The attempt has recorded what its exchange says, and nothing without one. -/
def Attempt.Recorded (job : Job) (a : Attempt) : Prop :=
  a.recorded = match a.contact with
    | some c => (exchange job c.endpoint c.reply).1
    | none => []

section Recorded

variable {job : Job} {n : ℕ} {s : LoopState}

theorem next_attempts (n : ℕ) (s : LoopState) : (Phase.next n s).attempts = s.attempts := by
  cases n <;> rfl

theorem settle_attempts (n : ℕ) (s : LoopState) (a : Attempt) (verdict : Verdict) :
    (settle n s a verdict).attempts = s.attempts ++ [a] := by
  cases verdict with
  | answer result => rfl
  | retry e => exact next_attempts ..

theorem forall_recorded_concat {attempts : List Attempt} {a : Attempt}
    (h : ∀ b ∈ attempts, b.Recorded job) (ha : a.Recorded job) :
    ∀ b ∈ attempts ++ [a], b.Recorded job :=
  List.forall_mem_append.mpr ⟨h, List.forall_mem_singleton.mpr ha⟩

theorem Move.recorded_attempts {Contents : Type*} {t : Thread} {w : AppState Contents}
    {action : Action} {next : Thread × AppState Contents} (hmove : Move t w action next)
    (h : ∀ a ∈ t.phase.attempts, a.Recorded t.job) :
    ∀ a ∈ next.1.phase.attempts, a.Recorded next.1.job := by
  rw [hmove.job]
  cases hmove with
  | emitted x pending _ => exact h
  | selected n s hphase _ =>
    rw [hphase] at h
    show ∀ a ∈ (selectStep t.job n s w.shared).1.attempts, _
    rcases selectStep_cases t.job n s w.shared with
      ⟨-, hstep⟩ | ⟨e, counter, -, hstep⟩ | ⟨p, counter, -, hstep⟩ <;> rw [hstep] <;> exact h
  | asked n s p now hphase _ _ =>
    rw [hphase] at h
    show ∀ a ∈ (askStep t.job n s p w.shared now).1.attempts, _
    rcases askStep_cases t.job n s p w.shared now with ⟨-, hstep⟩ | ⟨-, hstep⟩ <;> rw [hstep]
    · exact h
    · rw [next_attempts]
      exact forall_recorded_concat h rfl
  | sent n s q token hphase _ =>
    rw [hphase] at h
    show ∀ a ∈ (sendStep t.job n s q token).1.attempts, _
    rcases sendStep_cases t.job n s q token with ⟨e, -, hstep⟩ | ⟨request, -, hstep⟩ <;>
      rw [hstep]
    · exact forall_recorded_concat h rfl
    · exact h
  | received n s q request reply hphase _ =>
    rw [hphase] at h
    show ∀ a ∈ (receiveStep t.job n s q request reply).1.attempts, _
    rcases receiveStep_cases t.job n s q request reply with ⟨-, hstep⟩ | hstep <;> rw [hstep]
    · rw [settle_attempts]
      exact forall_recorded_concat h rfl
    · exact h
  | recorded n s q request reply now hphase _ _ =>
    rw [hphase] at h
    show ∀ a ∈ (recordStep t.job n s q request reply w.shared now).1.attempts, _
    unfold recordStep
    dsimp only
    rw [settle_attempts]
    exact forall_recorded_concat h rfl

theorem arrive_attempts (G : Gateway) (req : ChatRequest) (shared : Shared) :
    (Thread.arrive G req shared).phase.attempts = [] := by
  unfold Thread.arrive
  dsimp only
  split
  · rfl
  · exact next_attempts ..

end Recorded

/-- How often an attempt counts a failover from `name` for `reason`. -/
def Attempt.failovers (job : Job) (a : Attempt) (name reason : String) : ℕ :=
  tally (a.samples job) ⟨.failoverTotal, [name, reason]⟩

section Failovers

/-- The failovers counted for what `send` returns. -/
theorem sendSamples_failovers (J : SerdeJson) (model selected providerType : String)
    (outcome : Except ClientError (List UInt8)) (name : String) :
    let samples := (sendSamples J model selected providerType outcome).1 ++
      (sendSamples J model selected providerType outcome).2
    let results := ((sendOutcome J model providerType outcome).1.map fun result =>
      (selected, some result))
    tally samples ⟨.failoverTotal, [name, "429"]⟩ = results.count (name, some .rateLimited) ∧
      tally samples ⟨.failoverTotal, [name, "timeout"]⟩ = results.count (name, some .timeout) ∧
      tally samples ⟨.failoverTotal, [name, "5xx"]⟩ +
          tally samples ⟨.failoverTotal, [name, "network"]⟩ =
        results.count (name, some .failure) := by
  dsimp only
  cases outcome with
  | ok bytes =>
    have hnone : ∀ reason, tally ((sendSamples J model selected providerType (.ok bytes)).1 ++
        (sendSamples J model selected providerType (.ok bytes)).2)
          ⟨.failoverTotal, [name, reason]⟩ = 0 := by
      intro reason
      simp only [sendSamples, usageSamples]
      split
      · split <;> simp [incBy]
      · rfl
    simp [hnone, sendOutcome]
  | error e =>
    cases e with
    | httpError status body =>
      simp only [sendSamples, sendOutcome, httpErrorOutcome]
      split_ifs <;> first | omega | simp [once, List.count_cons]
    | timeout => simp [sendSamples, sendOutcome, once, List.count_cons]
    | _ => simp [sendSamples, sendOutcome, once, List.count_cons]

/-- The failovers that an attempt counts are the results that it records. -/
theorem Attempt.Recorded.failovers_eq {job : Job} {a : Attempt} (h : a.Recorded job)
    (name : String) :
    a.failovers job name "429" = a.calls.count (name, some .rateLimited) ∧
      a.failovers job name "timeout" = a.calls.count (name, some .timeout) ∧
      a.failovers job name "5xx" + a.failovers job name "network" =
        a.calls.count (name, some .failure) := by
  unfold Attempt.failovers Attempt.samples Attempt.calls
  rw [h]
  cases a.contact with
  | none =>
    dsimp only
    split_ifs <;> simp [circuitOpenSamples, once]
  | some c =>
    have hsend := sendSamples_failovers job.J job.model a.selected.name c.endpoint.providerType
      (send c.reply) name
    dsimp only at hsend ⊢
    unfold exchangeSamples exchange
    by_cases hstreaming : job.streaming = true
    · simp [hstreaming, once]
    · simpa [hstreaming, once] using hsend

/-- The failovers that attempts count are the results that they record. -/
theorem failovers_eq {job : Job} {attempts : List Attempt}
    (h : ∀ a ∈ attempts, a.Recorded job) (name : String) :
    let failovers := fun reason =>
      tally (attempts.flatMap (Attempt.samples job)) ⟨.failoverTotal, [name, reason]⟩
    let calls := attempts.flatMap Attempt.calls
    failovers "429" = calls.count (name, some .rateLimited) ∧
      failovers "timeout" = calls.count (name, some .timeout) ∧
      failovers "5xx" + failovers "network" = calls.count (name, some .failure) := by
  dsimp only
  induction attempts with
  | nil => exact ⟨rfl, rfl, rfl⟩
  | cons a attempts ih =>
    obtain ⟨h429, htimeout, hfailure⟩ := (h a List.mem_cons_self).failovers_eq name
    obtain ⟨ih429, ihtimeout, ihfailure⟩ := ih fun b hb => h b (List.mem_cons_of_mem _ hb)
    simp only [List.flatMap_cons, tally_append, List.count_append]
    unfold Attempt.failovers at h429 htimeout hfailure
    omega

/-- Compaction and return count no failover. -/
theorem tally_failover (t : Thread) (values : List String) :
    tally t.samples ⟨.failoverTotal, values⟩ =
      tally (t.phase.samples t.job) ⟨.failoverTotal, values⟩ := by
  rw [Thread.samples, tally_append, tally_append, tally_of (gateway_of _ _) (by decide),
    tally_of (exit_of _ _ _) (by decide), Nat.zero_add, Nat.add_zero]

/-- The failovers that a request has counted when it has returned are the results
    that its calls of the breaker report. -/
theorem Thread.Returned.failovers_eq {t : Thread} (h : t.Returned) (hmetered : t.Metered)
    (hrecorded : ∀ a ∈ t.phase.attempts, a.Recorded t.job) (name : String) :
    let failovers := fun reason => tally t.emitted ⟨.failoverTotal, [name, reason]⟩
    failovers "429" = t.phase.calls.count (name, some .rateLimited) ∧
      failovers "timeout" = t.phase.calls.count (name, some .timeout) ∧
      failovers "5xx" + failovers "network" = t.phase.calls.count (name, some .failure) := by
  obtain ⟨hpending, s, exit, hphase⟩ := h
  have hsamples : t.emitted = t.samples := by
    rw [← hmetered.account, hpending, List.append_nil]
  have htally : ∀ reason, tally t.emitted ⟨.failoverTotal, [name, reason]⟩ =
      tally (s.attempts.flatMap (Attempt.samples t.job)) ⟨.failoverTotal, [name, reason]⟩ := by
    intro reason
    rw [hsamples, tally_failover, hphase, Phase.samples, tally_append,
      tally_of (tokenSamples_of _ _ _) (by decide), Nat.add_zero]
    rfl
  rw [hphase] at hrecorded ⊢
  dsimp only
  rw [htally, htally, htally, htally]
  exact Router.failovers_eq hrecorded name

end Failovers

section Runs

variable {Contents : Type*} {U : Unicode} {J : SerdeJson} {config : GatewayConfig}
  {loadRoutes : Contents → Option RouteConfigFile} {w₀ : AppState Contents}
  {p : Requests Contents}
  {tr : List (RunStep Contents)}

/-- How often `record_result` was called for `name` with `result`. -/
def told (name : String) (result : CallResult) (tr : List (RunStep Contents)) : ℕ :=
  (Lib.callLog breakerCalls tr).countP fun c => callOf c.2 == (name, some result)

theorem told_eq
    (hrun : Lib.Run (Lib.pool (handlers U J config loadRoutes)) ⟨[], w₀⟩ tr p) (name : String)
    (result : CallResult) :
    told name result tr = p.total fun t => t.phase.calls.count (name, some result) :=
  hrun.countP_callLog breakerCalls callOf (fun t => t.phase.calls)
    (fun req w => arrive_calls _ req w.shared)
    (fun _ _ _ hready => (exec_move hready).calls) (· == (name, some result))

theorem forall_recorded
    (hrun : Lib.Run (Lib.pool (handlers U J config loadRoutes)) ⟨[], w₀⟩ tr p) {t : Thread}
    (ht : t ∈ p.threads) : ∀ a ∈ t.phase.attempts, a.Recorded t.job := by
  obtain ⟨i, hi⟩ := List.mem_iff_getElem?.mp ht
  refine hrun.forall_threads (J := fun t => ∀ a ∈ t.phase.attempts, a.Recorded t.job)
    (fun req w => ?_) (fun t w a hready h => (exec_move hready).recorded_attempts h) i t hi
  show ∀ a ∈ (Thread.arrive _ req w.shared).phase.attempts, _
  rw [arrive_attempts]
  exact List.forall_mem_nil _

/-- **Failovers.** In every run, when all requests have returned, the failovers
    counted for a provider are what the circuit breaker was told about it: those
    for 429 the `RateLimited` results, those for a timeout the `Timeout` results,
    and those for 5xx and for the network together the `Failure` results. -/
theorem failover_run
    (hrun : Lib.Run (Lib.pool (handlers U J config loadRoutes)) ⟨[], w₀⟩ tr p)
    (hfresh : w₀.registry = .new) (hreturned : ∀ t ∈ p.threads, t.Returned) (name : String) :
    p.shared.registry ⟨.failoverTotal, [name, "429"]⟩ =
        UInt64.ofNat (told name .rateLimited tr) ∧
      p.shared.registry ⟨.failoverTotal, [name, "timeout"]⟩ =
        UInt64.ofNat (told name .timeout tr) ∧
      p.shared.registry ⟨.failoverTotal, [name, "5xx"]⟩ +
          p.shared.registry ⟨.failoverTotal, [name, "network"]⟩ =
        UInt64.ofNat (told name .failure tr) := by
  have hthread := fun t ht =>
    (hreturned t ht).failovers_eq (forall_metered hrun t ht) (forall_recorded hrun ht) name
  rw [told_eq hrun, told_eq hrun, told_eq hrun]
  refine ⟨registry_of_emitted hrun hfresh fun t ht => (hthread t ht).1,
    registry_of_emitted hrun hfresh fun t ht => (hthread t ht).2.1, ?_⟩
  rw [registry_of_emitted hrun hfresh fun _ _ => rfl,
    registry_of_emitted hrun hfresh fun _ _ => rfl, ← UInt64.ofNat_add, ← Lib.total_add]
  exact congrArg UInt64.ofNat (Lib.total_congr fun t ht => (hthread t ht).2.2)

end Runs

/-- A question that the first provider turns down with 429 and the second one
    answers. -/
def retriedQuestion :
    List (Lib.PoolEvent ChatRequest Action (RouteConfig.Event RouteConfigFile)) :=
  [.arrive (questionTo "gpt-4o" false), .act 0 .emit, .act 0 .emit, .act 0 .emit, .act 0 .emit,
    .act 0 .emit, .act 0 .select, .act 0 (.ask 0), .act 0 (.send none), .act 0 .emit,
    .act 0 (.receive (.answered 429 (.complete [] ""))), .act 0 .emit, .act 0 .emit,
    .act 0 (.record 0), .act 0 .emit, .act 0 .select, .act 0 (.ask 0), .act 0 (.send none),
    .act 0 .emit, .act 0 (.receive (.answered 200 (.complete [0x7b, 0x7d] "\x7b\x7d"))),
    .act 0 .emit, .act 0 (.record 0), .act 0 .emit, .act 0 .emit, .act 0 .emit, .act 0 .emit,
    .act 0 .emit]

/-- The state of the gateway after these steps. -/
def afterRetry : Requests RouteConfigFile :=
  retriedQuestion.foldl (Lib.pool exampleHandlers).step ⟨[], freshState⟩

theorem retriedQuestion_run : Lib.Run (Lib.pool exampleHandlers) ⟨[], freshState⟩
    ((Lib.pool exampleHandlers).trace ⟨[], freshState⟩ retriedQuestion) afterRetry := by
  refine Lib.run_trace _ _ _ ?_
  unfold exampleHandlers
  decide +kernel

/-- One failover from the first provider. -/
theorem failover_run_retriedQuestion :
    afterRetry.shared.registry ⟨.failoverTotal, ["openai", "429"]⟩ = 1 := by
  have hrun := failover_run retriedQuestion_run rfl (by decide +kernel) "openai"
  rw [hrun.1]
  decide +kernel

/-! ## Responses -/

/-- The request has come to a response. -/
def Phase.responds : Phase → Bool
  | .finished s exit => (response (s, exit)).isOk
  | _ => false

section Responses

/-- A request counts itself, when it returns with a response. -/
theorem tally_requests (t : Thread) (values : List String) :
    tally t.samples ⟨.requestsTotal, values⟩ =
      if t.phase.responds ∧ values = [t.req.path, "unknown", "200"] then 1 else 0 := by
  rw [Thread.samples, tally_append, tally_append, tally_of (gateway_of _ _) (by decide),
    tally_of (phase_of _ _) (by decide), Nat.zero_add, Nat.zero_add]
  cases t.phase with
  | finished s exit =>
    cases hresponse : response (s, exit) with
    | ok r =>
      cases hexcluded : s.excluded <;>
        simp [Phase.exitSamples, exitSamples, Phase.responds, hresponse, hexcluded, once, eq_comm,
          Except.isOk, Except.toBool]
    | error e =>
      simp [Phase.exitSamples, exitSamples, Phase.responds, hresponse, Except.isOk, Except.toBool]
  | _ => rfl

/-- A request never counts more than it comes to. -/
theorem Thread.Metered.tally_le {t : Thread} (h : t.Metered) (series : Series) :
    tally t.emitted series ≤ tally t.samples series := by
  rw [← h.account, tally_append]
  exact Nat.le_add_right _ _

end Responses

section Runs

variable {Contents : Type*} {U : Unicode} {J : SerdeJson} {config : GatewayConfig}
  {loadRoutes : Contents → Option RouteConfigFile} {w₀ : AppState Contents}
  {p : Requests Contents}
  {tr : List (RunStep Contents)}

/-- **Responses.** In every run, the requests counted are exactly those answered
    with a response, under their path, client `unknown` and status `200`: at every
    moment there is nothing under other labels, so that no error is counted, and
    when all requests have returned, each response is counted once. -/
theorem requests_run
    (hrun : Lib.Run (Lib.pool (handlers U J config loadRoutes)) ⟨[], w₀⟩ tr p)
    (hfresh : w₀.registry = .new) :
    (∀ values, (∀ route, values ≠ [route, "unknown", "200"]) →
        p.shared.registry ⟨.requestsTotal, values⟩ = 0) ∧
      (∀ route, updates p ⟨.requestsTotal, [route, "unknown", "200"]⟩ ≤
        p.threads.countP fun t => t.phase.responds && t.req.path == route) ∧
      ((∀ t ∈ p.threads, t.Returned) → ∀ route,
        p.shared.registry ⟨.requestsTotal, [route, "unknown", "200"]⟩ =
          UInt64.ofNat (p.threads.countP fun t => t.phase.responds && t.req.path == route)) := by
  have hcount : ∀ route, (p.threads.countP fun t => t.phase.responds && t.req.path == route) =
      p.total fun t => tally t.samples ⟨.requestsTotal, [route, "unknown", "200"]⟩ := by
    intro route
    rw [← Lib.total_ite]
    refine Lib.total_congr fun t _ => ?_
    have hpath : [route, "unknown", "200"] = [t.req.path, "unknown", "200"] ↔
        t.req.path = route :=
      ⟨fun h => (List.cons.inj h).1.symm, fun h => by rw [h]⟩
    rw [tally_requests]
    simp only [hpath, Bool.and_eq_true, beq_iff_eq]
  refine ⟨fun values hvalues => ?_, fun route => ?_, fun hreturned route => ?_⟩
  · have hzero : ∀ t ∈ p.threads, tally t.emitted ⟨.requestsTotal, values⟩ = 0 := by
      intro t ht
      have hle := (forall_metered hrun t ht).tally_le ⟨.requestsTotal, values⟩
      rw [tally_requests, if_neg fun h => hvalues _ h.2] at hle
      exact Nat.le_zero.mp hle
    rw [registry_of_emitted hrun hfresh hzero, Lib.Pool.total, List.map_const', List.sum_replicate,
      smul_zero]
    rfl
  · rw [hcount]
    exact Lib.total_le fun t ht => (forall_metered hrun t ht).tally_le _
  · rw [hcount]
    refine registry_of_emitted hrun hfresh fun t ht => ?_
    rw [← (forall_metered hrun t ht).account, (hreturned t ht).1, List.append_nil]

end Runs

/-- One response, and no error. -/
theorem requests_run_retriedQuestion :
    afterRetry.shared.registry ⟨.requestsTotal, ["/v1/chat/completions", "unknown", "200"]⟩ = 1 ∧
      afterRetry.shared.registry ⟨.requestsTotal, ["/v1/chat/completions", "unknown", "503"]⟩ =
        0 := by
  obtain ⟨hother, -, hresponses⟩ := requests_run retriedQuestion_run rfl
  refine ⟨?_, hother _ (by simp)⟩
  rw [hresponses (by decide +kernel)]
  decide +kernel

end Melis.Router
