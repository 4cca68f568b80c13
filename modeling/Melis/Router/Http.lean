import Melis.Router.Interleaving
import Melis.Router.SentModel

/-!
# The status of an answer

What the client is told does not follow from one provider's answer alone: providers
are tried in turn, circuits are open, other requests use the same breaker. But one
contact decides, and the status follows from its reply by a table.

* `exchange_head`: the table is what one exchange gives.
* `failover_head`: the contact that decides.
* `head_run`: the status of every answer in every run.
-/

namespace Melis.Router

open CircuitBreaker Client

/-! ## The table -/

/-- The status for the client when a provider refuses with `status`. -/
def refusedStatus (status : ℕ) : ℕ :=
  if status = 400 ∨ status = 404 then 400
  else if status = 401 ∨ status = 403 then 401
  else if status = 429 then 429
  else if 500 ≤ status then 503
  else 502

/-- The status for the client when `reply` is the last word. -/
def replyStatus (J : SerdeJson) : Reply → ℕ
  | .unanswered _ _ => 503
  | .answered status (.complete bytes _) =>
    if isSuccess status then if (J.fromSlice bytes).isSome then 200 else 502
    else refusedStatus status
  | .answered status (.broken _ _) => if isSuccess status then 503 else refusedStatus status

/-- A refusal with this status is passed on at once. -/
def isPassedOn (status : ℕ) : Bool := decide (status ∈ [400, 401, 403, 404])

/-- After the reply no other provider is tried. -/
def isSettled : Reply → Bool
  | .unanswered _ _ => false
  | .answered status (.complete _ _) => isSuccess status || isPassedOn status
  | .answered status (.broken _ _) => !isSuccess status && isPassedOn status

/-- The status and the `Retry-After` header of an answer. -/
def head : Except GatewayError Response → ℕ × Option String
  | .ok _ => (200, none)
  | .error e => (e.intoResponse.status, e.intoResponse.retryAfter)

/-- The head of the answer when `reply` is the last word. -/
def replyHead (job : Job) (reply : Reply) : ℕ × Option String :=
  let status := if job.streaming then 200 else replyStatus job.J reply
  (status, if status = 429 then some "30" else none)

/-- The head that a verdict leads to. -/
def Verdict.head : Verdict → ℕ × Option String
  | .answer result => Router.head result
  | .retry e => Router.head (.error e)

/-- The loop is left. -/
def Verdict.isAnswer : Verdict → Bool
  | .answer _ => true
  | .retry _ => false

section Table

/-- A refusal. -/
theorem httpErrorOutcome_head (model : String) (status : ℕ) (errBody : String) :
    (httpErrorOutcome model status errBody).2.head =
        (refusedStatus status, if refusedStatus status = 429 then some "30" else none) ∧
      (httpErrorOutcome model status errBody).2.isAnswer = isPassedOn status := by
  unfold httpErrorOutcome refusedStatus isPassedOn
  by_cases hlisted : status = 400 ∨ status = 401 ∨ status = 403 ∨ status = 404 ∨ status = 429
  · rcases hlisted with rfl | rfl | rfl | rfl | rfl <;> exact ⟨rfl, rfl⟩
  simp only [not_or] at hlisted
  obtain ⟨h400, h401, h403, h404, h429⟩ := hlisted
  by_cases h500 : 500 ≤ status <;>
    simp [h400, h401, h403, h404, h429, h500, Verdict.head, Verdict.isAnswer, head,
      GatewayError.intoResponse]

/-- What `send` returns. -/
theorem sendOutcome_head (J : SerdeJson) (model providerType : String) (reply : Reply) :
    (sendOutcome J model providerType (send reply)).2.head =
        (replyStatus J reply, if replyStatus J reply = 429 then some "30" else none) ∧
      (sendOutcome J model providerType (send reply)).2.isAnswer = isSettled reply := by
  match reply with
  | .unanswered true _ => exact ⟨rfl, rfl⟩
  | .unanswered false _ => exact ⟨rfl, rfl⟩
  | .answered status (.complete bytes text) =>
    simp only [send, replyStatus, isSettled]
    by_cases hsuccess : isSuccess status = true
    · simp only [hsuccess, if_true, sendOutcome]
      cases J.fromSlice bytes with
      | some v => exact ⟨rfl, rfl⟩
      | none => exact ⟨rfl, rfl⟩
    · rw [Bool.not_eq_true] at hsuccess
      simp only [hsuccess, Bool.false_eq_true, if_false, sendOutcome, Bool.false_or]
      exact httpErrorOutcome_head _ _ _
  | .answered status (.broken isTimeout error) =>
    simp only [send, replyStatus, isSettled]
    by_cases hsuccess : isSuccess status = true
    · simp only [hsuccess, if_true, sendOutcome]
      exact ⟨rfl, rfl⟩
    · rw [Bool.not_eq_true] at hsuccess
      simp only [hsuccess, Bool.false_eq_true, if_false, sendOutcome, Bool.not_false, Bool.true_and]
      exact httpErrorOutcome_head _ _ _

/-- One exchange keeps to the table. -/
theorem exchange_head (job : Job) (endpoint : Endpoint) (reply : Reply) :
    (exchange job endpoint reply).2.head = replyHead job reply ∧
      (exchange job endpoint reply).2.isAnswer = (job.streaming || isSettled reply) := by
  unfold exchange replyHead
  by_cases hstreaming : job.streaming = true
  · simp only [hstreaming, if_true]
    exact ⟨rfl, rfl⟩
  · rw [Bool.not_eq_true] at hstreaming
    simp only [hstreaming, Bool.false_eq_true, if_false, Bool.false_or]
    exact sendOutcome_head _ _ _ _

end Table

/-! ## The contact that decides -/

/-- The contacts made, in order. -/
def LoopState.contacts (s : LoopState) : List Contact := s.attempts.filterMap (·.contact)

/-- The contact whose reply decides the answer: the last one, if the request came to
    an end with it, or has used up its attempts. -/
def deciding (streaming : Bool) (run : LoopState × Exit) : Option Contact :=
  match run.2 with
  | .answered _ =>
    (run.1.attempts.getLast?.bind (·.contact)).filter fun c => streaming || isSettled c.reply
  | .exhausted => run.1.contacts.getLast?

/-- The head of the answer that a contact decides; without one there is no service. -/
def decidedHead (job : Job) (c : Option Contact) : ℕ × Option String :=
  c.elim (503, none) fun c => replyHead job c.reply

/-- The error kept is that of the last contact, and no contact so far decides. -/
structure Undecided (job : Job) (s : LoopState) : Prop where
  head_eq : head (response (s, .exhausted)) = decidedHead job s.contacts.getLast?
  goesOn : ∀ a ∈ s.attempts, ∀ c, a.contact = some c → (job.streaming || isSettled c.reply) = false

section Loop

variable {job : Job} {w : Surroundings} {s s' : LoopState} {exit : Exit}

theorem undecided_start (job : Job) (shared : Shared) : Undecided job (.start shared) where
  head_eq := rfl
  goesOn := by simp [LoopState.start]

theorem Undecided.next (h : Undecided job s) (hturn : Turn job w s (.next s')) :
    Undecided job s' := by
  cases hturn with
  | skipped p shared hselected hopen hstates =>
    refine ⟨?_, ?_⟩
    · refine h.head_eq.trans ?_
      simp [LoopState.contacts, opening]
    · intro a ha c hc
      rcases List.mem_append.mp ha with ha | ha
      · exact h.goesOn a ha c hc
      · obtain rfl := List.mem_singleton.mp ha
        cases hc
  | retried p shared request recorded e hselected hopen hbuild hexchange hstates =>
    obtain ⟨hhead, hsettled⟩ := exchange_head job (job.endpoint p) w.reply
    rw [hexchange] at hhead hsettled
    refine ⟨?_, ?_⟩
    · refine Eq.trans ?_ (hhead.trans ?_)
      · rfl
      · simp [LoopState.contacts, contacting, decidedHead]
    · intro a ha c hc
      rcases List.mem_append.mp ha with ha | ha
      · exact h.goesOn a ha c hc
      · obtain rfl := List.mem_singleton.mp ha
        obtain rfl := Option.some.inj hc
        exact hsettled.symm

/-- A payload that can be sent is only held back for want of a token. -/
theorem unsent_error (hsend : job.Sendable) {p : WeightedProvider} {token : Option String}
    {e : GatewayError} (hbuild : buildRequest job (job.endpoint p) token = .error e) :
    e = .serviceUnavailable "Vertex AI authentication unavailable" := by
  obtain ⟨body, hbody, -⟩ := exists_buildBody hsend (job.endpoint p)
  rw [buildRequest, hbody] at hbuild
  cases hheaders : buildHeaders (job.endpoint p) token with
  | none =>
    rw [hheaders] at hbuild
    exact (Except.error.inj hbuild).symm
  | some headers =>
    rw [hheaders] at hbuild
    cases hbuild

/-- Without a contact at the end of the last attempt nothing is decided. -/
theorem Undecided.deciding_eq_none (h : Undecided job s) (shared : Shared)
    (result : Except GatewayError Response) :
    deciding job.streaming ({ s with shared }, .answered result) = none := by
  show ((s.attempts.getLast?.bind (·.contact)).filter _) = none
  cases hlast : s.attempts.getLast? with
  | none => rfl
  | some a =>
    cases hc : a.contact with
    | none => simp [hc]
    | some c =>
      have hgoesOn := h.goesOn a (List.mem_of_getLast? hlast) c hc
      simp only [Option.bind_some, hc, Option.filter_some, hgoesOn, Bool.false_eq_true, if_false]

theorem Undecided.done (h : Undecided job s) (hsend : job.Sendable)
    (hturn : Turn job w s (.done s' exit)) :
    head (response (s', exit)) = decidedHead job (Router.deciding job.streaming (s', exit)) := by
  cases hturn with
  | exhausted hnone => exact h.head_eq
  | unselected e shared hne hselected hweight =>
    rw [h.deciding_eq_none]
    have he : e = .serviceUnavailable "No providers available" := by
      rcases Balancer.selectProvider_cases (w.beforeSelect s.shared).counter (candidates job s) with
        ⟨p, -, hp⟩ | ⟨hnone, -⟩
      · cases hp.symm.trans hselected
      · exact Except.error.inj (hselected.symm.trans hnone)
    rw [he]
    rfl
  | unsent p shared e hselected hopen hbuild =>
    have hlast : (s.attempts ++ [opening job w s p]).getLast? = some (opening job w s p) :=
      List.getLast?_concat
    have hnone : deciding job.streaming ({ s with
        shared, attempts := s.attempts ++ [opening job w s p] }, .answered (.error e)) = none := by
      have hcontact : (opening job w s p).contact = none := rfl
      simp only [deciding, hlast, Option.bind_some, hcontact, Option.filter_none]
    rw [hnone, unsent_error hsend hbuild]
    rfl
  | answered p shared request recorded result hselected hopen hbuild hexchange =>
    obtain ⟨hhead, hsettled⟩ := exchange_head job (job.endpoint p) w.reply
    rw [hexchange] at hhead hsettled
    have hlast : (s.attempts ++ [contacting job w s p request recorded]).getLast? =
        some (contacting job w s p request recorded) := List.getLast?_concat
    have hcontact : (contacting job w s p request recorded).contact =
        some ⟨job.endpoint p, request, w.reply⟩ := rfl
    have hsome : deciding job.streaming ({ s with
        shared, attempts := s.attempts ++ [contacting job w s p request recorded] },
          .answered result) = some ⟨job.endpoint p, request, w.reply⟩ := by
      simp only [deciding, hlast, Option.bind_some, hcontact, Option.filter_some, ← hsettled,
        Verdict.isAnswer, if_true]
    rw [hsome]
    exact hhead

/-- The answer of the loop. -/
theorem failover_head (hsend : job.Sendable) (env : ℕ → Surroundings) (shared : Shared) :
    head (response (failover job env shared)) =
      decidedHead job (deciding job.streaming (failover job env shared)) :=
  failoverFrom_post (I := fun _ s => Undecided job s)
    (Q := fun s exit =>
      head (response (s, exit)) = decidedHead job (deciding job.streaming (s, exit)))
    (fun _ _ _ _ h hturn => h.next hturn) (fun _ _ _ _ _ h hturn => h.done hsend hturn)
    (fun _ h => h.head_eq) (Nat.zero_add _) (undecided_start job shared)

end Loop

/-! ## Every answer -/

section Runs

variable {Contents : Type*} {U : Unicode} {J : SerdeJson} {config : GatewayConfig}
  {loadRoutes : Contents → Option RouteConfigFile} {w₀ : AppState Contents}
  {p : Requests Contents} {tr : List (RunStep Contents)}

theorem validateMessages_error {i : ℕ} {messages : List Value} {e : GatewayError}
    (h : validateMessages i messages = .error e) : ∃ msg, e = .badRequest msg := by
  induction messages generalizing i with
  | nil => cases h
  | cons m messages ih =>
    rw [validateMessages] at h
    split_ifs at h
    · exact ⟨_, (Except.error.inj h).symm⟩
    · exact ⟨_, (Except.error.inj h).symm⟩
    · exact ih h

/-- A payload that is not accepted is a bad request. -/
theorem validateChatPayload_error {payload : Value} {e : GatewayError}
    (h : validateChatPayload payload = .error e) : ∃ msg, e = .badRequest msg := by
  unfold validateChatPayload at h
  split at h
  · split_ifs at h
    · exact ⟨_, (Except.error.inj h).symm⟩
    · split at h
      · exact ⟨_, (Except.error.inj h).symm⟩
      · exact validateMessages_error h
      · exact ⟨_, (Except.error.inj h).symm⟩
  · exact ⟨_, (Except.error.inj h).symm⟩

theorem replyStatus_mem (J : SerdeJson) (reply : Reply) :
    replyStatus J reply ∈ [200, 400, 401, 429, 502, 503] := by
  have hrefused : ∀ status, refusedStatus status ∈ [200, 400, 401, 429, 502, 503] := by
    intro status
    unfold refusedStatus
    split_ifs <;> decide
  match reply with
  | .unanswered _ _ => simp [replyStatus]
  | .answered status (.complete bytes _) =>
    simp only [replyStatus]
    split_ifs
    · decide
    · decide
    · exact hrefused status
  | .answered status (.broken _ _) =>
    simp only [replyStatus]
    split_ifs
    · decide
    · exact hrefused status

theorem decidedHead_mem (job : Job) (c : Option Contact) :
    (decidedHead job c).1 ∈ [200, 400, 401, 429, 502, 503] ∧
      (decidedHead job c).2 = if (decidedHead job c).1 = 429 then some "30" else none := by
  cases c with
  | none => exact ⟨by simp [decidedHead], rfl⟩
  | some c =>
    refine ⟨?_, rfl⟩
    show (if job.streaming then 200 else replyStatus job.J c.reply) ∈ _
    split_ifs
    · decide
    · exact replyStatus_mem _ _

/-- The head that the table gives for a request that has come to `run`. -/
def Thread.expectedHead (t : Thread) (run : LoopState × Exit) : ℕ × Option String :=
  if validateChatPayload t.req.payload = .ok () then
    decidedHead t.job (deciding t.req.streaming run)
  else (400, none)

/-- **Status.** In every run of any number of requests, the status of an answer is 400
    if the payload is not accepted; otherwise it follows from the reply of the contact
    that decides, and is 503 if there is none. It is never 500, and there is a
    `Retry-After`, of 30 seconds, exactly with 429. -/
theorem head_run (hrun : Lib.Run (Lib.pool (handlers U J config loadRoutes)) ⟨[], w₀⟩ tr p)
    {i : ℕ} {t : Thread} (hi : p.threads[i]? = some t) {s : LoopState} {exit : Exit}
    (hphase : t.phase = .finished s exit) :
    head (response (s, exit)) = t.expectedHead (s, exit) ∧
      (head (response (s, exit))).1 ∈ [200, 400, 401, 429, 502, 503] ∧
      (head (response (s, exit))).2 =
        if (head (response (s, exit))).1 = 429 then some "30" else none := by
  obtain ⟨env, henv⟩ := thread_finished hrun hi hphase
  cases hvalid : validateChatPayload t.req.payload with
  | error e =>
    obtain ⟨msg, rfl⟩ := validateChatPayload_error hvalid
    have hhead : head (response (s, exit)) = (400, none) := by
      rw [← henv, chatCompletions, hvalid]
      rfl
    rw [hhead, Thread.expectedHead, hvalid, if_neg (by simp)]
    exact ⟨rfl, by decide, rfl⟩
  | ok _ =>
    have hhead : head (response (s, exit)) =
        decidedHead t.job (deciding t.req.streaming (s, exit)) := by
      have hfailover := failover_head (sendable_of_accepted t.gateway hvalid) env t.arrival
      rw [chatCompletions, hvalid] at henv
      rwa [show failover (t.gateway.job t.req) env t.arrival = (s, exit) from henv] at hfailover
    rw [hhead, Thread.expectedHead, hvalid, if_pos rfl]
    exact ⟨rfl, decidedHead_mem t.job _⟩


end Runs

/-! ## Example -/

/-- A question is refused by the first provider for its rate, and not answered in time
    by the second. -/
def hopelessQuestion :
    List (Lib.PoolEvent ChatRequest Action (RouteConfig.Event RouteConfigFile)) :=
  [.arrive (questionTo "gpt-4o" false), .act 0 .emit, .act 0 .emit, .act 0 .emit, .act 0 .emit,
    .act 0 .emit, .act 0 .select, .act 0 (.ask 0), .act 0 (.send none), .act 0 .emit,
    .act 0 (.receive (.answered 429 (.complete [] ""))), .act 0 .emit, .act 0 .emit,
    .act 0 (.record 0), .act 0 .emit, .act 0 .select, .act 0 (.ask 0), .act 0 (.send none),
    .act 0 .emit, .act 0 (.receive (.unanswered true "")), .act 0 .emit, .act 0 (.record 0)]

/-- The state of the gateway after these steps. -/
def afterTimeout : Requests RouteConfigFile :=
  hopelessQuestion.foldl (Lib.pool exampleHandlers).step ⟨[], freshState⟩

theorem hopelessQuestion_run : Lib.Run (Lib.pool exampleHandlers) ⟨[], freshState⟩
    ((Lib.pool exampleHandlers).trace ⟨[], freshState⟩ hopelessQuestion) afterTimeout := by
  refine Lib.run_trace _ _ _ ?_
  unfold exampleHandlers
  decide +kernel

/-- The second reply decides. -/
theorem head_run_hopelessQuestion :
    ∃ t s exit, afterTimeout.threads[0]? = some t ∧ t.phase = .finished s exit ∧
      head (response (s, exit)) = (503, none) := by
  have hvalue : (afterTimeout.threads[0]?.bind fun t => t.phase.outcome.map t.expectedHead) =
      some (503, none) := by
    decide +kernel
  obtain ⟨t, ht, hexpected⟩ := Option.bind_eq_some_iff.mp hvalue
  obtain ⟨⟨s, exit⟩, houtcome, hhead⟩ := Option.map_eq_some_iff.mp hexpected
  have hphase := Phase.eq_finished houtcome
  exact ⟨t, s, exit, ht, hphase, (head_run hopelessQuestion_run ht hphase).1.trans hhead⟩

end Melis.Router
