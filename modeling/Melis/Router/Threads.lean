import Melis.Lib.Threads
import Melis.RouteConfig.Reload
import Melis.Router.Contacts
import Melis.Router.Samples

/-!
# Requests in flight

The handler as a thread: `chat_completions_handler` cut into the steps that touch
what requests share, each of them atomic in the code (the load of the current
routes, `fetch_add` on the balancer's counter, a call under the breaker's write
lock, one metric update). `handlers` is the gateway at work: any number of
requests, in any interleaving with each other and with the hot reload of the
routes.

* `selectStep_cases` and the like: what each piece of the handler comes to.
* `exec_move`: everything one step of a request can do, guards included.
-/

namespace Melis.Router

open CircuitBreaker Client Observability

/-! ## One request -/

/-- A provider selected that the breaker was asked about: the beginning of an
    attempt. -/
structure Asked where
  selected : WeightedProvider
  states : States
  now : Instant

/-- The attempt that begins so, with what follows. -/
def Asked.attempt (q : Asked) (contact : Option Contact) (recorded : List CallResult) :
    Attempt where
  selected := q.selected
  asked := q.states
  askedAt := q.now
  contact := contact
  recorded := recorded

/-- Where a request stands. `n` is the number of attempts left after the one it
    is at; `s.shared` is the shared state as its last step left it. -/
inductive Phase where
  | select (n : ℕ) (s : LoopState)
  | ask (n : ℕ) (s : LoopState) (selected : WeightedProvider)
  | send (n : ℕ) (s : LoopState) (q : Asked)
  | await (n : ℕ) (s : LoopState) (q : Asked) (request : UpstreamRequest)
  | record (n : ℕ) (s : LoopState) (q : Asked) (request : UpstreamRequest) (reply : Reply)
  | finished (s : LoopState) (exit : Exit)

/-- A request in flight. `gateway` has the routes that were active when it came;
    `pending` are the metric updates it makes before it goes on. `arrival` and
    `emitted` are a record that the code does not keep. -/
structure Thread where
  gateway : Gateway
  req : ChatRequest
  arrival : Shared
  providerTypeUsed : String
  phase : Phase
  pending : List Sample
  emitted : List Sample

/-- What the loop of the request works on. -/
def Thread.job (t : Thread) : Job := t.gateway.job t.req

/-- A step of a request, with what it learns from outside: the breaker's clock
    reading, the token cache's answer, the upstream's reply. -/
inductive Action where
  | emit
  | select
  | ask (now : Instant)
  | send (token : Option String)
  | receive (reply : Reply)
  | record (now : Instant)

/-- The head of the loop with `n` attempts left (line 370). -/
def Phase.next : ℕ → LoopState → Phase
  | 0, s => .finished s .exhausted
  | n + 1, s => .select n s

/-- `select_provider` on the candidates left, if there are any (lines 371–391). -/
def selectStep (job : Job) (n : ℕ) (s : LoopState) (shared : Shared) : Phase × Shared :=
  if (candidates job s).isEmpty then (.finished s .exhausted, shared)
  else
    match Balancer.selectProvider shared.counter (candidates job s) with
    | (.error e, counter) =>
      let shared := { shared with counter }
      (.finished { s with shared } (.answered (.error e)), shared)
    | (.ok selected, counter) =>
      let shared := { shared with counter }
      (.ask n { s with shared } selected, shared)

/-- `is_available` (lines 394–404). -/
def askStep (job : Job) (n : ℕ) (s : LoopState) (selected : WeightedProvider) (shared : Shared)
    (now : Instant) : Phase × Shared × List Sample :=
  let q : Asked := { selected, states := shared.states, now }
  let (available, states) :=
    isAvailable job.config.circuitBreaker shared.states selected.name now
  let shared := { shared with states }
  if available then (.send n { s with shared } q, shared, [])
  else
    let s := { s with excluded := s.excluded ++ [selected.name], shared
                      attempts := s.attempts ++ [q.attempt none []] }
    (.next n s, shared, circuitOpenSamples selected.name)

/-- The end of an attempt that contacted its provider. -/
def settle (n : ℕ) (s : LoopState) (a : Attempt) : Verdict → Phase
  | .answer result => .finished { s with attempts := s.attempts ++ [a] } (.answered result)
  | .retry error =>
    .next n { s with excluded := s.excluded ++ [a.selected.name], lastError := some error
                     attempts := s.attempts ++ [a] }

/-- From the lookup of the provider to the request for it (lines 407–539). -/
def sendStep (job : Job) (n : ℕ) (s : LoopState) (q : Asked) (token : Option String) :
    Phase × List Sample :=
  match buildRequest job (job.endpoint q.selected) token with
  | .error e =>
    (.finished { s with attempts := s.attempts ++ [q.attempt none []] } (.answered (.error e)),
      unsentSamples (job.endpoint q.selected) token)
  | .ok request => (.await n s q request, [once .payloadTranslation []])

/-- The attempt that got `reply`. -/
def Asked.contacted (job : Job) (q : Asked) (request : UpstreamRequest) (reply : Reply) :
    Attempt :=
  q.attempt (some ⟨job.endpoint q.selected, request, reply⟩)
    (exchange job (job.endpoint q.selected) reply).1

/-- The upstream's reply (lines 541–586); a stream is not awaited. A reply that
    records nothing ends the attempt. -/
def receiveStep (job : Job) (n : ℕ) (s : LoopState) (q : Asked) (request : UpstreamRequest)
    (reply : Reply) : Phase × List Sample :=
  let (recorded, verdict) := exchange job (job.endpoint q.selected) reply
  let (before, after) := exchangeSamples job q.selected.name (job.endpoint q.selected) reply
  match recorded with
  | [] => (settle n s (q.contacted job request reply) verdict, before ++ after)
  | _ :: _ => (.record n s q request reply, before)

/-- `record_result`, and what follows it (lines 550–780). -/
def recordStep (job : Job) (n : ℕ) (s : LoopState) (q : Asked) (request : UpstreamRequest)
    (reply : Reply) (shared : Shared) (now : Instant) : Phase × Shared × List Sample :=
  let (recorded, verdict) := exchange job (job.endpoint q.selected) reply
  let states := recorded.foldl (fun states result =>
    recordResult job.config.circuitBreaker states q.selected.name result now) shared.states
  let shared := { shared with states }
  (settle n { s with shared } (q.contacted job request reply) verdict, shared,
    (exchangeSamples job q.selected.name (job.endpoint q.selected) reply).2)

/-- The updates made when the handler returns. -/
def Phase.exitSamples (req : ChatRequest) (providerTypeUsed : String) : Phase → List Sample
  | .finished s exit => Router.exitSamples req providerTypeUsed (s, exit)
  | _ => []

/-- What a request has come to. -/
def Phase.outcome : Phase → Option (LoopState × Exit)
  | .finished s exit => some (s, exit)
  | _ => none

theorem Phase.eq_finished {phase : Phase} {s : LoopState} {exit : Exit}
    (h : phase.outcome = some (s, exit)) : phase = .finished s exit := by
  cases phase with
  | finished s' exit' =>
    cases h
    rfl
  | _ => cases h

/-- The request goes on to `phase`, once it has made the updates `samples`. -/
def Thread.goTo (t : Thread) (phase : Phase) (samples : List Sample) : Thread :=
  { t with
    phase, pending := samples ++ phase.exitSamples t.req t.providerTypeUsed }

/-- A request comes in (lines 247–366). -/
def Thread.arrive (gateway : Gateway) (req : ChatRequest) (shared : Shared) : Thread :=
  let t : Thread :=
    { gateway, req, arrival := shared, providerTypeUsed := "unknown"
      phase := .finished (.start shared) .exhausted, pending := [], emitted := [] }
  match validateChatPayload req.payload with
  | .error e => t.goTo (.finished (.start shared) (.answered (.error e))) []
  | .ok () =>
    let resolved := gateway.resolve req
    t.goTo (.next (maxAttempts t.job) (.start shared))
      (compactionSamples gateway.U resolved.effectiveTokenConfig
        (overrideModel req.payload resolved.model))

/-! ## The gateway at work -/

/-- What requests share of `AppState` (`state.rs` lines 22–49) and change, and the
    latest clock reading of the breaker. -/
structure AppState (Contents : Type*) where
  shared : Shared
  clock : Instant
  manager : RouteConfig.RouteConfigManager Contents
  registry : Registry

variable {Contents : Type*}

/-- The step that a request can take next. Clock readings do not decrease. -/
def Thread.Ready (t : Thread) (clock : Instant) : Action → Prop
  | .emit => t.pending ≠ []
  | .select => t.pending = [] ∧ ∃ n s, t.phase = .select n s
  | .ask now => t.pending = [] ∧ clock ≤ now ∧ ∃ n s p, t.phase = .ask n s p
  | .send _ => t.pending = [] ∧ ∃ n s q, t.phase = .send n s q
  | .receive _ => t.pending = [] ∧ ∃ n s q request, t.phase = .await n s q request
  | .record now =>
    t.pending = [] ∧ clock ≤ now ∧ ∃ n s q request reply, t.phase = .record n s q request reply

/-- One step of a request. -/
def Thread.exec (t : Thread) (w : AppState Contents) : Action → Thread × AppState Contents
  | .emit =>
    match t.pending with
    | x :: pending =>
      ({ t with pending, emitted := t.emitted ++ [x] },
        { w with registry := w.registry.record x })
    | [] => (t, w)
  | .select =>
    match t.phase with
    | .select n s =>
      let (phase, shared) := selectStep t.job n s w.shared
      (t.goTo phase [], { w with shared })
    | _ => (t, w)
  | .ask now =>
    match t.phase with
    | .ask n s p =>
      let (phase, shared, samples) := askStep t.job n s p w.shared now
      (t.goTo phase samples, { w with shared, clock := now })
    | _ => (t, w)
  | .send token =>
    match t.phase with
    | .send n s q =>
      let (phase, samples) := sendStep t.job n s q token
      let t := { t with providerTypeUsed := (t.job.endpoint q.selected).providerType }
      (t.goTo phase samples, w)
    | _ => (t, w)
  | .receive reply =>
    match t.phase with
    | .await n s q request =>
      let (phase, samples) := receiveStep t.job n s q request reply
      (t.goTo phase samples, w)
    | _ => (t, w)
  | .record now =>
    match t.phase with
    | .record n s q request reply =>
      let (phase, shared, samples) := recordStep t.job n s q request reply w.shared now
      (t.goTo phase samples, { w with shared, clock := now })
    | _ => (t, w)

/-- The requests to a gateway with the tables `U` and `J` and the configuration
    `config`, while its routes are reloaded. -/
def handlers (U : Unicode) (J : SerdeJson) (config : GatewayConfig)
    (loadRoutes : Contents → Option RouteConfigFile) :
    Lib.Program (AppState Contents) Thread ChatRequest Action (RouteConfig.Event Contents) where
  init req w := .arrive ⟨U, J, config, w.manager.config⟩ req w.shared
  ready t w := t.Ready w.clock
  exec := Thread.exec
  world :=
    { enabled := fun w => (RouteConfig.reloadLoop U loadRoutes).enabled w.manager
      step := fun w e =>
        { w with manager := (RouteConfig.reloadLoop U loadRoutes).step w.manager e } }

/-- The requests of a run, and what they share. -/
abbrev Requests (Contents : Type*) := Lib.Pool (AppState Contents) Thread

/-- A step of a run. -/
abbrev RunStep (Contents : Type*) :=
  Lib.Step (Requests Contents) (Lib.PoolEvent ChatRequest Action (RouteConfig.Event Contents))

/-! ## Which steps are possible -/

/-- The kind of a phase. -/
def Phase.index : Phase → Fin 6
  | .select _ _ => 0
  | .ask _ _ _ => 1
  | .send _ _ _ => 2
  | .await _ _ _ _ => 3
  | .record _ _ _ _ _ => 4
  | .finished _ _ => 5

instance (t : Thread) (clock : Instant) : ∀ action, Decidable (t.Ready clock action)
  | .emit => inferInstanceAs (Decidable (t.pending ≠ []))
  | .select => decidable_of_iff (t.pending = [] ∧ t.phase.index = 0) <| by
      cases hphase : t.phase <;> simp [Thread.Ready, Phase.index, hphase]
  | .ask now => decidable_of_iff (t.pending = [] ∧ clock ≤ now ∧ t.phase.index = 1) <| by
      cases hphase : t.phase <;> simp [Thread.Ready, Phase.index, hphase]
  | .send _ => decidable_of_iff (t.pending = [] ∧ t.phase.index = 2) <| by
      cases hphase : t.phase <;> simp [Thread.Ready, Phase.index, hphase]
  | .receive _ => decidable_of_iff (t.pending = [] ∧ t.phase.index = 3) <| by
      cases hphase : t.phase <;> simp [Thread.Ready, Phase.index, hphase]
  | .record now => decidable_of_iff (t.pending = [] ∧ clock ≤ now ∧ t.phase.index = 4) <| by
      cases hphase : t.phase <;> simp [Thread.Ready, Phase.index, hphase]

instance (U : Unicode) (J : SerdeJson) (config : GatewayConfig)
    (loadRoutes : Contents → Option RouteConfigFile) (p : Requests Contents) :
    ∀ e, Decidable ((Lib.pool (handlers U J config loadRoutes)).enabled p e) :=
  haveI : ∀ t w a, Decidable ((handlers U J config loadRoutes).ready t w a) :=
    fun t w a => inferInstanceAs (Decidable (Thread.Ready t w.clock a))
  haveI : ∀ w e, Decidable ((handlers U J config loadRoutes).world.enabled w e) :=
    fun w e =>
      inferInstanceAs (Decidable ((RouteConfig.reloadLoop U loadRoutes).enabled w.manager e))
  fun _ => inferInstance

/-! ## One step -/

section Cases

variable (job : Job) (n : ℕ) (s : LoopState)

/-- What a selection comes to: nobody is left, nobody is selected, or a provider. -/
theorem selectStep_cases (shared : Shared) :
    (candidates job s = [] ∧ selectStep job n s shared = (.finished s .exhausted, shared)) ∨
      (∃ e counter,
        Balancer.selectProvider shared.counter (candidates job s) = (.error e, counter) ∧
          selectStep job n s shared =
            (.finished { s with shared := { shared with counter } } (.answered (.error e)),
              { shared with counter })) ∨
      ∃ p counter,
        Balancer.selectProvider shared.counter (candidates job s) = (.ok p, counter) ∧
          selectStep job n s shared =
            (.ask n { s with shared := { shared with counter } } p, { shared with counter }) := by
  unfold selectStep
  split_ifs with hempty
  · exact .inl ⟨List.isEmpty_iff.mp hempty, rfl⟩
  · dsimp only
    split
    · next e counter hsel => exact .inr (.inl ⟨e, counter, hsel, rfl⟩)
    · next p counter hsel => exact .inr (.inr ⟨p, counter, hsel, rfl⟩)

/-- What the breaker's answer comes to. -/
theorem askStep_cases (p : WeightedProvider) (shared : Shared) (now : Instant) :
    let answer := isAvailable job.config.circuitBreaker shared.states p.name now
    let q : Asked := ⟨p, shared.states, now⟩
    let shared' := { shared with states := answer.2 }
    (answer.1 = true ∧ askStep job n s p shared now =
        (.send n { s with shared := shared' } q, shared', [])) ∨
      (answer.1 = false ∧ askStep job n s p shared now =
        (.next n { s with
          excluded := s.excluded ++ [p.name], shared := shared'
          attempts := s.attempts ++ [q.attempt none []] }, shared',
          circuitOpenSamples p.name)) := by
  unfold askStep
  dsimp only
  split_ifs with havail
  · exact .inl ⟨havail, rfl⟩
  · exact .inr ⟨Bool.eq_false_iff.mpr havail, rfl⟩

/-- There is a request to send, or not. -/
theorem sendStep_cases (q : Asked) (token : Option String) :
    (∃ e, buildRequest job (job.endpoint q.selected) token = .error e ∧
      sendStep job n s q token =
        (.finished { s with attempts := s.attempts ++ [q.attempt none []] }
          (.answered (.error e)), unsentSamples (job.endpoint q.selected) token)) ∨
      ∃ request, buildRequest job (job.endpoint q.selected) token = .ok request ∧
        sendStep job n s q token = (.await n s q request, [once .payloadTranslation []]) := by
  unfold sendStep
  split
  · next e hbuild => exact .inl ⟨e, hbuild, rfl⟩
  · next request hbuild => exact .inr ⟨request, hbuild, rfl⟩

/-- There is nothing to record of a reply, or there is. -/
theorem receiveStep_cases (q : Asked) (request : UpstreamRequest) (reply : Reply) :
    let samples := exchangeSamples job q.selected.name (job.endpoint q.selected) reply
    ((q.contacted job request reply).recorded = [] ∧ receiveStep job n s q request reply =
        (settle n s (q.contacted job request reply)
          (exchange job (job.endpoint q.selected) reply).2, samples.1 ++ samples.2)) ∨
      receiveStep job n s q request reply = (.record n s q request reply, samples.1) := by
  unfold receiveStep
  dsimp only
  split
  · next hnone => exact .inl ⟨hnone, rfl⟩
  · exact .inr rfl

end Cases

/-- What a step of a request can do. -/
inductive Move (t : Thread) (w : AppState Contents) : Action → Thread × AppState Contents → Prop
  | emitted (x : Sample) (pending : List Sample) (hpending : t.pending = x :: pending) :
      Move t w .emit ({ t with pending, emitted := t.emitted ++ [x] },
        { w with registry := w.registry.record x })
  | selected (n : ℕ) (s : LoopState) (hphase : t.phase = .select n s) (hpending : t.pending = []) :
      Move t w .select (t.goTo (selectStep t.job n s w.shared).1 [],
        { w with shared := (selectStep t.job n s w.shared).2 })
  | asked (n : ℕ) (s : LoopState) (p : WeightedProvider) (now : Instant)
      (hphase : t.phase = .ask n s p) (hpending : t.pending = []) (hnow : w.clock ≤ now) :
      Move t w (.ask now)
        (t.goTo (askStep t.job n s p w.shared now).1 (askStep t.job n s p w.shared now).2.2,
          { w with shared := (askStep t.job n s p w.shared now).2.1, clock := now })
  | sent (n : ℕ) (s : LoopState) (q : Asked) (token : Option String)
      (hphase : t.phase = .send n s q) (hpending : t.pending = []) :
      Move t w (.send token)
        ({ t with providerTypeUsed := (t.job.endpoint q.selected).providerType }.goTo
          (sendStep t.job n s q token).1 (sendStep t.job n s q token).2, w)
  | received (n : ℕ) (s : LoopState) (q : Asked) (request : UpstreamRequest) (reply : Reply)
      (hphase : t.phase = .await n s q request) (hpending : t.pending = []) :
      Move t w (.receive reply)
        (t.goTo (receiveStep t.job n s q request reply).1
          (receiveStep t.job n s q request reply).2, w)
  | recorded (n : ℕ) (s : LoopState) (q : Asked) (request : UpstreamRequest) (reply : Reply)
      (now : Instant) (hphase : t.phase = .record n s q request reply) (hpending : t.pending = [])
      (hnow : w.clock ≤ now) :
      Move t w (.record now)
        (t.goTo (recordStep t.job n s q request reply w.shared now).1
          (recordStep t.job n s q request reply w.shared now).2.2,
          { w with
            shared := (recordStep t.job n s q request reply w.shared now).2.1, clock := now })

theorem exec_move {t : Thread} {w : AppState Contents} {action : Action}
    (h : t.Ready w.clock action) : Move t w action (t.exec w action) := by
  cases action with
  | emit =>
    obtain ⟨x, pending, hpending⟩ := List.exists_cons_of_ne_nil h
    simp only [Thread.exec, hpending]
    exact .emitted x pending hpending
  | select =>
    obtain ⟨hpending, n, s, hphase⟩ := h
    simp only [Thread.exec, hphase]
    exact .selected n s hphase hpending
  | ask now =>
    obtain ⟨hpending, hnow, n, s, p, hphase⟩ := h
    simp only [Thread.exec, hphase]
    exact .asked n s p now hphase hpending hnow
  | send token =>
    obtain ⟨hpending, n, s, q, hphase⟩ := h
    simp only [Thread.exec, hphase]
    exact .sent n s q token hphase hpending
  | receive reply =>
    obtain ⟨hpending, n, s, q, request, hphase⟩ := h
    simp only [Thread.exec, hphase]
    exact .received n s q request reply hphase hpending
  | record now =>
    obtain ⟨hpending, hnow, n, s, q, request, reply, hphase⟩ := h
    simp only [Thread.exec, hphase]
    exact .recorded n s q request reply now hphase hpending hnow

/-- A step does not change what a request is about. -/
theorem Move.same {t : Thread} {world : AppState Contents} {action : Action}
    {next : Thread × AppState Contents} (h : Move t world action next) :
    next.1.gateway = t.gateway ∧ next.1.req = t.req ∧ next.1.arrival = t.arrival := by
  cases h <;> exact ⟨rfl, rfl, rfl⟩

theorem arrive_same (G : Gateway) (req : ChatRequest) (shared : Shared) :
    (Thread.arrive G req shared).gateway = G ∧ (Thread.arrive G req shared).req = req ∧
      (Thread.arrive G req shared).arrival = shared := by
  unfold Thread.arrive
  dsimp only
  split <;> exact ⟨rfl, rfl, rfl⟩

theorem Move.job {t : Thread} {world : AppState Contents} {action : Action}
    {next : Thread × AppState Contents} (h : Move t world action next) : next.1.job = t.job := by
  rw [Thread.job, h.same.1, h.same.2.1]
  rfl

theorem arrive_job (G : Gateway) (req : ChatRequest) (shared : Shared) :
    (Thread.arrive G req shared).job = G.job req := by
  rw [Thread.job, (arrive_same G req shared).1, (arrive_same G req shared).2.1]

section Runs

variable {U : Unicode} {J : SerdeJson} {config : GatewayConfig}
  {loadRoutes : Contents → Option RouteConfigFile} {w₀ : AppState Contents}
  {p : Requests Contents}
  {tr : List (RunStep Contents)}

/-- All requests have the gateway's configuration. -/
theorem thread_config
    (hrun : Lib.Run (Lib.pool (handlers U J config loadRoutes)) ⟨[], w₀⟩ tr p) {i : ℕ} {t : Thread}
    (hi : p.threads[i]? = some t) : t.gateway.config = config := by
  refine hrun.forall_threads (J := fun t => t.gateway.config = config) (fun req w => ?_)
    (fun t w a hready h => ?_) i t hi
  · exact congrArg _ (arrive_same _ req w.shared).1
  · exact (congrArg _ (exec_move hready).same.1).trans h

end Runs

/-! ## Example -/

/-- A file with one route to two providers. -/
def pairFile : RouteConfigFile where
  routes := [⟨"/v1/chat/completions", "POST", none, none,
    some [⟨"openai", 1, "gpt-4o"⟩, ⟨"ollama", 1, "llama3"⟩], none⟩]

/-- A gateway with this route, before any request. The file is given by its
    routes. -/
def freshState : AppState RouteConfigFile where
  shared := freshShared
  clock := 0
  manager :=
    { file := pairFile, events := 0, channel := 0, loop := .recv
      config := .new Unicode.ascii pairFile }
  registry := .new

theorem new_freshState : RouteConfig.RouteConfigManager.new Unicode.ascii some pairFile =
    some freshState.manager := rfl

/-- The requests to this gateway. -/
def exampleHandlers :
    Lib.Program (AppState RouteConfigFile) Thread ChatRequest Action
      (RouteConfig.Event RouteConfigFile) :=
  handlers Unicode.ascii emptyObjectJson ⟨[], .default, .default⟩ some

/-- A question is asked and answered; another one comes in between, and the
    routes are changed. -/
def twoQuestions :
    List (Lib.PoolEvent ChatRequest Action (RouteConfig.Event RouteConfigFile)) :=
  [.arrive (questionTo "gpt-4o" false), .act 0 .emit, .act 0 .emit, .act 0 .emit, .act 0 .emit,
    .act 0 .emit, .act 0 .select, .arrive (questionTo "gpt-4o" true), .act 0 (.ask 0),
    .act 0 (.send none), .act 0 .emit, .world (.write (RouteConfig.oneRouteFile "ollama")),
    .act 0 (.receive (.answered 200 (.complete [0x7b, 0x7d] "\x7b\x7d"))), .act 0 .emit,
    .act 0 (.record 0), .act 0 .emit, .act 0 .emit, .act 0 .emit, .act 0 .emit]

/-- The state of the gateway after these steps. -/
def answeredQuestion : Requests RouteConfigFile :=
  twoQuestions.foldl (Lib.pool exampleHandlers).step ⟨[], freshState⟩

theorem twoQuestions_run : Lib.Run (Lib.pool exampleHandlers) ⟨[], freshState⟩
    ((Lib.pool exampleHandlers).trace ⟨[], freshState⟩ twoQuestions) answeredQuestion := by
  refine Lib.run_trace _ _ _ ?_
  unfold exampleHandlers
  decide +kernel

end Melis.Router
