import Melis.Router.Threads

/-!
# Interleaved requests are requests in some surroundings

The failover loop was translated with the effect of other requests as a parameter
(`Surroundings`). Here these are the other requests: whatever a request does among
any number of others, with the routes reloaded at any time, `chatCompletions`
does in some surroundings.

* `Move.rest`: one step of a request leaves what its loop still comes to.
* `thread_chatCompletions`: a request that has returned, whatever it was
  interleaved with.
-/

namespace Melis.Router

open CircuitBreaker Client

/-! ## What is left of a turn -/

/-- The turn of `contactProvider` from `record_result` on. -/
def recordFlow (job : Job) (w : Surroundings) (s : LoopState) (a : Attempt) (verdict : Verdict)
    (shared : Shared) : Flow :=
  let shared := w.beforeRecord shared
  let states := a.recorded.foldl (fun states result =>
    recordResult job.config.circuitBreaker states a.selected.name result w.recordNow) shared.states
  match verdict with
  | .answer result =>
    .done { s with shared := { shared with states }, attempts := s.attempts ++ [a] }
      (.answered result)
  | .retry error =>
    .next { excluded := s.excluded ++ [a.selected.name], lastError := some error
            shared := { shared with states }, attempts := s.attempts ++ [a] }

/-- The turn of `contactProvider` from the reply on. -/
def receiveFlow (job : Job) (w : Surroundings) (s : LoopState) (q : Asked)
    (request : UpstreamRequest) (shared : Shared) : Flow :=
  recordFlow job w s (q.contacted job request w.reply)
    (exchange job (job.endpoint q.selected) w.reply).2 shared

/-- The turn of `attempt` from the breaker on. -/
def askFlow (job : Job) (w : Surroundings) (s : LoopState) (p : WeightedProvider)
    (shared : Shared) : Flow :=
  let shared := w.beforeAsk shared
  let a := Asked.attempt ⟨p, shared.states, w.askNow⟩ none []
  let (available, states) :=
    isAvailable job.config.circuitBreaker shared.states p.name w.askNow
  let shared := { shared with states }
  if available then contactProvider job w s a shared
  else
    .next { s with excluded := s.excluded ++ [p.name], shared, attempts := s.attempts ++ [a] }

/-- The loop after a turn, with `n` attempts left in the surroundings `env`. -/
def resume (job : Job) (env : ℕ → Surroundings) (n : ℕ) : Flow → LoopState × Exit
  | .next s => failoverFrom job env n 0 s
  | .done s exit => (s, exit)

/-- What a request at `phase` comes to, if `w` surrounds the rest of the turn and
    `env` the later turns. -/
def Phase.rest (job : Job) (w : Surroundings) (env : ℕ → Surroundings) :
    Phase → LoopState × Exit
  | .select n s => resume job env n (attempt job w s)
  | .ask n s p => resume job env n (askFlow job w s p s.shared)
  | .send n s q => resume job env n (contactProvider job w s (q.attempt none []) s.shared)
  | .await n s q request => resume job env n (receiveFlow job w s q request s.shared)
  | .record n s q request reply => resume job env n (recordFlow job w s
      (q.contacted job request reply) (exchange job (job.endpoint q.selected) reply).2 s.shared)
  | .finished s exit => (s, exit)

section Steps

variable {job : Job} {w : Surroundings} {env : ℕ → Surroundings} {n : ℕ} {s : LoopState}

/-- Turn 0 in `w`, the later ones in `env`. -/
def prepend (w : Surroundings) (env : ℕ → Surroundings) : ℕ → Surroundings
  | 0 => w
  | i + 1 => env i

theorem failoverFrom_shift (job : Job) (w : Surroundings) (env : ℕ → Surroundings) (n i : ℕ)
    (s : LoopState) :
    failoverFrom job (prepend w env) n (i + 1) s = failoverFrom job env n i s := by
  induction n generalizing i s with
  | zero => rfl
  | succ n ih =>
    rw [failoverFrom, failoverFrom, prepend]
    cases attempt job (env i) s with
    | next s' => exact ih (i + 1) s'
    | done s' exit => rfl

/-- The head of the loop. -/
theorem rest_next (job : Job) (w : Surroundings) (env : ℕ → Surroundings) (n : ℕ) (s : LoopState) :
    (Phase.next n s).rest job w env = failoverFrom job (prepend w env) n 0 s := by
  cases n with
  | zero => rfl
  | succ n =>
    rw [failoverFrom]
    show resume job env n (attempt job w s) = _
    rw [prepend]
    cases attempt job w s with
    | next s' => exact (failoverFrom_shift job w env n 0 s').symm
    | done s' exit => rfl

theorem attempt_of_selection {w : Surroundings} {p : WeightedProvider} {counter : ℕ}
    (hne : (candidates job s).isEmpty = false)
    (hsel : Balancer.selectProvider (w.beforeSelect s.shared).counter (candidates job s) =
      (.ok p, counter)) :
    attempt job w s = askFlow job w s p { w.beforeSelect s.shared with counter } := by
  rw [attempt, if_neg (by rw [hne]; exact Bool.false_ne_true)]
  dsimp only
  rw [hsel]
  rfl

theorem selectStep_rest (shared : Shared) (w : Surroundings) (env : ℕ → Surroundings) :
    ∃ w' env', (Phase.select n s).rest job w' env' =
      (selectStep job n s shared).1.rest job w env := by
  refine ⟨{ w with beforeSelect := fun _ => shared }, env, ?_⟩
  unfold selectStep
  cases hne : (candidates job s).isEmpty with
  | true =>
    rw [if_pos rfl, Phase.rest, attempt, if_pos hne]
    rfl
  | false =>
    rw [if_neg Bool.false_ne_true]
    cases hsel : Balancer.selectProvider shared.counter (candidates job s) with
    | mk selected counter =>
      cases selected with
      | error e =>
        rw [Phase.rest, attempt, if_neg (by rw [hne]; exact Bool.false_ne_true)]
        dsimp only
        rw [hsel]
        rfl
      | ok p =>
        rw [Phase.rest, attempt_of_selection hne hsel]
        rfl

theorem askStep_rest (p : WeightedProvider) (shared : Shared) (now : Instant) (w : Surroundings)
    (env : ℕ → Surroundings) : ∃ w' env', (Phase.ask n s p).rest job w' env' =
      (askStep job n s p shared now).1.rest job w env := by
  unfold askStep
  dsimp only
  cases havail : (isAvailable job.config.circuitBreaker shared.states p.name now).1 with
  | true =>
    refine ⟨{ w with beforeAsk := fun _ => shared, askNow := now }, env, ?_⟩
    rw [if_pos rfl, Phase.rest, askFlow]
    dsimp only
    rw [if_pos havail]
    rfl
  | false =>
    refine ⟨{ w with beforeAsk := fun _ => shared, askNow := now }, prepend w env, ?_⟩
    rw [if_neg Bool.false_ne_true, rest_next, Phase.rest, askFlow]
    dsimp only
    rw [if_neg (by rw [havail]; exact Bool.false_ne_true)]
    rfl

theorem sendStep_rest (q : Asked) (token : Option String) (w : Surroundings)
    (env : ℕ → Surroundings) : ∃ w' env', (Phase.send n s q).rest job w' env' =
      (sendStep job n s q token).1.rest job w env := by
  refine ⟨{ w with token }, env, ?_⟩
  unfold sendStep
  rw [Phase.rest, contactProvider]
  dsimp only
  rw [show endpointOf (findProvider job.config (q.attempt none []).selected.name) =
    job.endpoint q.selected from rfl]
  cases buildRequest job (job.endpoint q.selected) token with
  | error e => rfl
  | ok request => rfl

/-- The end of a turn, and the phase it leads to. -/
theorem settle_rest (job : Job) (n : ℕ) (s : LoopState) (a : Attempt) (verdict : Verdict)
    (w' w : Surroundings) (env : ℕ → Surroundings) :
    ∃ env', resume job env' n (recordFlow job w' s a verdict s.shared) =
      (settle n { s with shared := { w'.beforeRecord s.shared with
        states := recordedStates job w' (w'.beforeRecord s.shared).states a.selected a.recorded } }
        a verdict).rest job w env := by
  cases verdict with
  | answer result => exact ⟨env, rfl⟩
  | retry error =>
    refine ⟨prepend w env, ?_⟩
    rw [settle, rest_next]
    rfl

theorem receiveStep_rest (q : Asked) (request : UpstreamRequest) (reply : Reply)
    (w : Surroundings) (env : ℕ → Surroundings) :
    ∃ w' env', (Phase.await n s q request).rest job w' env' =
      (receiveStep job n s q request reply).1.rest job w env := by
  unfold receiveStep
  dsimp only
  split
  · next hnone =>
    obtain ⟨env', henv'⟩ := settle_rest job n s (q.contacted job request reply)
      (exchange job (job.endpoint q.selected) reply).2 { w with beforeRecord := id, reply } w env
    rw [show (q.contacted job request reply).recorded = [] from hnone] at henv'
    exact ⟨_, env', henv'⟩
  · exact ⟨{ w with reply }, env, rfl⟩

theorem recordStep_rest (q : Asked) (request : UpstreamRequest) (reply : Reply)
    (shared : Shared) (now : Instant) (w : Surroundings) (env : ℕ → Surroundings) :
    ∃ w' env', (Phase.record n s q request reply).rest job w' env' =
      (recordStep job n s q request reply shared now).1.rest job w env := by
  obtain ⟨env', henv'⟩ := settle_rest job n s (q.contacted job request reply)
    (exchange job (job.endpoint q.selected) reply).2
    { w with beforeRecord := fun _ => shared, recordNow := now } w env
  exact ⟨_, env', henv'⟩

end Steps

/-! ## A request of a run -/

section Runs

variable {Contents : Type*}

/-- Whatever a request still comes to after a step, it came to before it in some
    surroundings. -/
theorem Move.rest {t : Thread} {world : AppState Contents} {action : Action}
    {next : Thread × AppState Contents} (h : Move t world action next) (w : Surroundings)
    (env : ℕ → Surroundings) :
    ∃ w' env', t.phase.rest t.job w' env' = next.1.phase.rest t.job w env := by
  cases h with
  | emitted x pending _ => exact ⟨w, env, rfl⟩
  | selected n s hphase _ =>
    rw [hphase]
    exact selectStep_rest world.shared w env
  | asked n s p now hphase _ _ =>
    rw [hphase]
    exact askStep_rest p world.shared now w env
  | sent n s q token hphase _ =>
    rw [hphase]
    exact sendStep_rest q token w env
  | received n s q request reply hphase _ =>
    rw [hphase]
    exact receiveStep_rest q request reply w env
  | recorded n s q request reply now hphase _ _ =>
    rw [hphase]
    exact recordStep_rest q request reply world.shared now w env

theorem arrive_rest (G : Gateway) (req : ChatRequest) (shared : Shared) (w : Surroundings)
    (env : ℕ → Surroundings) : (Thread.arrive G req shared).phase.rest (G.job req) w env =
      chatCompletions G (prepend w env) req shared := by
  unfold Thread.arrive chatCompletions
  cases validateChatPayload req.payload with
  | error e => rfl
  | ok u => exact rest_next (G.job req) w env (maxAttempts (G.job req)) (.start shared)

/-- What a request has come to, the handler comes to in some surroundings. -/
def Thread.Simulated (t : Thread) : Prop :=
  ∀ w env, ∃ env', chatCompletions t.gateway env' t.req t.arrival = t.phase.rest t.job w env

theorem arrive_simulated (G : Gateway) (req : ChatRequest) (shared : Shared) :
    (Thread.arrive G req shared).Simulated := by
  intro w env
  obtain ⟨hgateway, hreq, harrival⟩ := arrive_same G req shared
  refine ⟨prepend w env, ?_⟩
  rw [arrive_job, hgateway, hreq, harrival]
  exact (arrive_rest G req shared w env).symm

theorem Move.simulated {t : Thread} {world : AppState Contents} {action : Action}
    {next : Thread × AppState Contents} (h : Move t world action next) (hsim : t.Simulated) :
    next.1.Simulated := by
  intro w env
  obtain ⟨w', env', hrest⟩ := h.rest w env
  obtain ⟨env'', hsim⟩ := hsim w' env'
  obtain ⟨hgateway, hreq, harrival⟩ := h.same
  refine ⟨env'', ?_⟩
  rw [h.job, hgateway, hreq, harrival, hsim, hrest]

theorem Thread.Simulated.finished {t : Thread} (h : t.Simulated) {s : LoopState} {exit : Exit}
    (hphase : t.phase = .finished s exit) :
    ∃ env, chatCompletions t.gateway env t.req t.arrival = (s, exit) := by
  obtain ⟨env, henv⟩ := h (alone 0 (.unanswered false "")) fun _ => alone 0 (.unanswered false "")
  rw [hphase] at henv
  exact ⟨env, henv⟩

variable {U : Unicode} {J : SerdeJson} {config : GatewayConfig}
  {loadRoutes : Contents → Option RouteConfigFile} {w₀ : AppState Contents}
  {p : Requests Contents}
  {tr : List (RunStep Contents)}

/-- A request that has returned, whatever it was interleaved with. -/
theorem thread_finished
    (hrun : Lib.Run (Lib.pool (handlers U J config loadRoutes)) ⟨[], w₀⟩ tr p) {i : ℕ} {t : Thread}
    (hi : p.threads[i]? = some t) {s : LoopState} {exit : Exit}
    (hphase : t.phase = .finished s exit) :
    ∃ env, chatCompletions t.gateway env t.req t.arrival = (s, exit) :=
  (hrun.forall_threads (J := Thread.Simulated) (fun req w => arrive_simulated _ req w.shared)
    (fun _ _ _ hready h => (exec_move hready).simulated h) i t hi).finished hphase

/-- The reload's steps of a step. -/
def reloadEvents (x : RunStep Contents) :
    List (RouteConfig.Event Contents) :=
  match x.event with
  | .world e => [e]
  | _ => []

/-- The requests leave the reload alone. -/
theorem Move.manager {t : Thread} {world : AppState Contents} {action : Action}
    {next : Thread × AppState Contents} (h : Move t world action next) :
    next.2.manager = world.manager := by
  cases h <;> rfl

/-- The reload's steps of a run are a run of the reload. -/
theorem run_reload (hrun : Lib.Run (Lib.pool (handlers U J config loadRoutes)) ⟨[], w₀⟩ tr p) :
    ∃ reloads, Lib.Run (RouteConfig.reloadLoop U loadRoutes) w₀.manager reloads p.shared.manager ∧
      reloads.map (·.event) = tr.flatMap reloadEvents := by
  have hstep : ∀ (tr : List (RunStep Contents))
      (p : Requests Contents)
      (e : Lib.PoolEvent ChatRequest Action (RouteConfig.Event Contents))
      (m : RouteConfig.RouteConfigManager Contents),
      Lib.Run (Lib.pool (handlers U J config loadRoutes)) ⟨[], w₀⟩ tr p →
      (Lib.pool (handlers U J config loadRoutes)).enabled p e → p.shared.manager = m →
      ∃ tr' m', Lib.Run (RouteConfig.reloadLoop U loadRoutes) m tr' m' ∧
        tr'.map (·.event) =
          reloadEvents ⟨p, e, (Lib.pool (handlers U J config loadRoutes)).step p e⟩ ∧
        ((Lib.pool (handlers U J config loadRoutes)).step p e).shared.manager = m' := by
    rintro - p e _ - henabled rfl
    cases e with
    | arrive req => exact ⟨[], _, .nil, rfl, rfl⟩
    | act i a =>
      obtain ⟨t, hold, hready⟩ := henabled
      refine ⟨[], _, .nil, rfl, ?_⟩
      rw [Lib.step_act hold]
      exact (exec_move hready).manager
    | world e => exact ⟨_, _, .snoc .nil henabled, rfl, rfl⟩
  obtain ⟨reloads, m, hreloads, hevents, rfl⟩ := 
    hrun.simulate (fun p m => p.shared.manager = m) reloadEvents _ rfl hstep
  exact ⟨reloads, hreloads, hevents⟩

/-- What the route file has held when the run has taken the steps `tr`. -/
def fileHistory (initial : Contents)
    (tr : List (RunStep Contents)) : List Contents :=
  initial :: (tr.flatMap reloadEvents).filterMap RouteConfig.Event.written

/-- The active routes are built from valid contents that the file has held. -/
theorem run_builds {initial : Contents}
    (hnew : RouteConfig.RouteConfigManager.new U loadRoutes initial = some w₀.manager)
    (hrun : Lib.Run (Lib.pool (handlers U J config loadRoutes)) ⟨[], w₀⟩ tr p) :
    ∃ contents ∈ fileHistory initial tr,
      RouteConfig.Builds U loadRoutes contents p.shared.manager.config := by
  obtain ⟨reloads, hreloads, hevents⟩ := run_reload hrun
  obtain ⟨contents, hmem, hbuilds⟩ := (RouteConfig.inv_run hnew hreloads).built
  refine ⟨contents, ?_, hbuilds⟩
  rw [fileHistory, ← hevents, List.filterMap_map]
  exact hmem

/-- **Interleaving.** In every run of any number of requests, interleaved step by
    step with each other and with the hot reload, every request is handled with
    the routes that were active when it came, built from valid contents that the
    file had held by then; and when it returns, it has done what
    `chatCompletions` does with these routes in some surroundings. -/
theorem thread_chatCompletions {initial : Contents}
    (hnew : RouteConfig.RouteConfigManager.new U loadRoutes initial = some w₀.manager)
    (hrun : Lib.Run (Lib.pool (handlers U J config loadRoutes)) ⟨[], w₀⟩ tr p) {i : ℕ} {t : Thread}
    (hi : p.threads[i]? = some t) :
    ∃ before q q' after, tr = before ++ ⟨q, .arrive t.req, q'⟩ :: after ∧ q.threads.length = i ∧
      t.arrival = q.shared.shared ∧ t.gateway = ⟨U, J, config, q.shared.manager.config⟩ ∧
      (∃ contents ∈ fileHistory initial before,
        RouteConfig.Builds U loadRoutes contents t.gateway.resolver) ∧
      ∀ s exit, t.phase = .finished s exit →
        ∃ env, chatCompletions t.gateway env t.req t.arrival = (s, exit) := by
  obtain ⟨before, q, req, q', after, htr, hq, own, hown, -⟩ := hrun.solo hi
  have hstart := arrive_same ⟨U, J, config, q.shared.manager.config⟩ req q.shared.shared
  have hthread : (t.gateway = ⟨U, J, config, q.shared.manager.config⟩ ∧ t.req = req ∧
      t.arrival = q.shared.shared) ∧ t.Simulated := by
    refine hown.invariant (P := fun t => (t.gateway = _ ∧ t.req = req ∧ t.arrival = _) ∧ _)
      ⟨hstart, arrive_simulated _ req q.shared.shared⟩ ?_
    rintro t ⟨w, a⟩ hready ⟨⟨hgateway, hreq, harrival⟩, hsim⟩
    have hmove : Move t w a (t.exec w a) := exec_move hready
    exact ⟨⟨hmove.same.1.trans hgateway, hmove.same.2.1.trans hreq,
      hmove.same.2.2.trans harrival⟩, hmove.simulated hsim⟩
  obtain ⟨⟨hgateway, rfl, harrival⟩, hsim⟩ := hthread
  refine ⟨before, q, q', after, htr, hq, harrival, hgateway, ?_, fun s exit hphase =>
    hsim.finished hphase⟩
  subst htr
  rw [hgateway]
  exact run_builds hnew hrun.split.1

end Runs

/-- The first question has been handled with the routes of the file. -/
theorem thread_chatCompletions_twoQuestions :
    ∃ t s exit, answeredQuestion.threads[0]? = some t ∧ t.phase = .finished s exit ∧
      ∃ env, chatCompletions t.gateway env t.req t.arrival = (s, exit) := by
  obtain ⟨-, -, -, -, -, -, -, -, -, h⟩ :=
    thread_chatCompletions new_freshState twoQuestions_run (i := 0) rfl
  exact ⟨_, _, _, rfl, rfl, h _ _ rfl⟩

end Melis.Router
