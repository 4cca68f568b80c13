import Melis.Balancer.Distribution
import Melis.CircuitBreaker.Operations
import Melis.Router.Threads

/-!
# What requests in flight do to the shared state

* `breaker_run`: the calls of all requests, in the order in which they come, are
  a run of the circuit breaker, and those of one request are the calls of its
  attempts, each once.
* `tickets_run`: the selections of all requests read the counter values one after
  another, none twice, whatever was interleaved, and so follow the weights.
-/

namespace Melis.Router

open CircuitBreaker Client

variable {Contents : Type*}

/-! ## The circuit breaker -/

/-- The calls that a step makes to the breaker. -/
def breakerCalls (t : Thread) (_ : AppState Contents) : Action → List Operation
  | .ask now =>
    match t.phase with
    | .ask _ _ p => [.isAvailable p.name now]
    | _ => []
  | .record now =>
    match t.phase with
    | .record _ _ q _ reply =>
      (exchange t.job (t.job.endpoint q.selected) reply).1.map fun result =>
        .recordResult q.selected.name result now
    | _ => []
  | _ => []

/-- The provider of a call, and the result it reports. -/
def callOf : Operation → String × Option CallResult
  | .isAvailable provider _ => (provider, none)
  | .recordResult provider result _ => (provider, some result)

/-- The calls of an attempt: the question, and the results of the exchange. -/
def Attempt.calls (a : Attempt) : List (String × Option CallResult) :=
  (a.selected.name, none) :: a.recorded.map fun result => (a.selected.name, some result)

/-- The calls a request has made. -/
def Phase.calls : Phase → List (String × Option CallResult)
  | .select _ s => s.attempts.flatMap Attempt.calls
  | .ask _ s _ => s.attempts.flatMap Attempt.calls
  | .send _ s q => s.attempts.flatMap Attempt.calls ++ [(q.selected.name, none)]
  | .await _ s q _ => s.attempts.flatMap Attempt.calls ++ [(q.selected.name, none)]
  | .record _ s q _ _ => s.attempts.flatMap Attempt.calls ++ [(q.selected.name, none)]
  | .finished s _ => s.attempts.flatMap Attempt.calls

section Calls

theorem next_calls (n : ℕ) (s : LoopState) :
    (Phase.next n s).calls = s.attempts.flatMap Attempt.calls := by
  cases n <;> rfl

theorem concat_calls (attempts : List Attempt) (a : Attempt) :
    (attempts ++ [a]).flatMap Attempt.calls = attempts.flatMap Attempt.calls ++ a.calls := by
  rw [List.flatMap_append, List.flatMap_singleton]

theorem settle_calls (n : ℕ) (s : LoopState) (a : Attempt) (verdict : Verdict) :
    (settle n s a verdict).calls = s.attempts.flatMap Attempt.calls ++ a.calls := by
  rw [← concat_calls]
  cases verdict with
  | answer result => rfl
  | retry e => rw [settle, next_calls]

theorem selectStep_calls (job : Job) (n : ℕ) (s : LoopState) (shared : Shared) :
    (selectStep job n s shared).1.calls = s.attempts.flatMap Attempt.calls := by
  rcases selectStep_cases job n s shared with ⟨-, h⟩ | ⟨e, counter, -, h⟩ | ⟨p, counter, -, h⟩ <;>
    rw [h] <;> rfl

theorem askStep_calls (job : Job) (n : ℕ) (s : LoopState) (p : WeightedProvider)
    (shared : Shared) (now : Instant) : (askStep job n s p shared now).1.calls =
      s.attempts.flatMap Attempt.calls ++ [(p.name, none)] := by
  rcases askStep_cases job n s p shared now with ⟨-, h⟩ | ⟨-, h⟩ <;> rw [h]
  · rfl
  · rw [next_calls]
    exact concat_calls ..

theorem sendStep_calls (job : Job) (n : ℕ) (s : LoopState) (q : Asked) (token : Option String) :
    (sendStep job n s q token).1.calls =
      s.attempts.flatMap Attempt.calls ++ [(q.selected.name, none)] := by
  rcases sendStep_cases job n s q token with ⟨e, -, h⟩ | ⟨request, -, h⟩ <;> rw [h]
  · exact concat_calls ..
  · rfl

theorem receiveStep_calls (job : Job) (n : ℕ) (s : LoopState) (q : Asked)
    (request : UpstreamRequest) (reply : Reply) : (receiveStep job n s q request reply).1.calls =
      s.attempts.flatMap Attempt.calls ++ [(q.selected.name, none)] := by
  rcases receiveStep_cases job n s q request reply with ⟨hnone, h⟩ | h <;> rw [h]
  · rw [settle_calls, Attempt.calls, hnone]
    rfl
  · rfl

/-- A step adds to a request's record the calls it makes. -/
theorem Move.calls {t : Thread} {w : AppState Contents} {action : Action}
    {next : Thread × AppState Contents} (h : Move t w action next) :
    next.1.phase.calls = t.phase.calls ++ (breakerCalls t w action).map callOf := by
  cases h with
  | emitted x pending _ => exact (List.append_nil _).symm
  | selected n s hphase _ =>
    rw [hphase]
    exact (selectStep_calls ..).trans (List.append_nil _).symm
  | asked n s p now hphase _ _ =>
    simp only [breakerCalls, hphase]
    exact askStep_calls ..
  | sent n s q token hphase _ =>
    rw [hphase]
    exact (sendStep_calls ..).trans (List.append_nil _).symm
  | received n s q request reply hphase _ =>
    rw [hphase]
    exact (receiveStep_calls ..).trans (List.append_nil _).symm
  | recorded n s q request reply now hphase _ _ =>
    simp only [breakerCalls, hphase, List.map_map, Phase.calls, List.append_assoc]
    exact settle_calls ..

end Calls

theorem arrive_calls (G : Gateway) (req : ChatRequest) (shared : Shared) :
    (Thread.arrive G req shared).phase.calls = [] := by
  unfold Thread.arrive
  dsimp only
  split
  · rfl
  · exact next_calls ..

section Runs

variable {U : Unicode} {J : SerdeJson} {config : GatewayConfig}
  {loadRoutes : Contents → Option RouteConfigFile} {w₀ : AppState Contents}
  {p : Requests Contents}
  {tr : List (RunStep Contents)}

/-- Results recorded at one clock reading are calls of the breaker. -/
theorem record_run (config : CircuitBreakerConfig) (provider : String) {now : Instant}
    (results : List CallResult) {b : Breaker} (hb : b.clock ≤ now) :
    ∃ otr b', Lib.Run (operations config) b otr b' ∧
      otr.map (·.event) = results.map (Operation.recordResult provider · now) ∧
      b'.states = results.foldl (fun states result =>
        recordResult config states provider result now) b.states ∧ b'.clock ≤ now := by
  induction results generalizing b with
  | nil => exact ⟨[], b, .nil, rfl, rfl, hb⟩
  | cons r rs ih =>
    obtain ⟨otr, b', hrun, hevents, hstates, hclock⟩ :=
      ih (b := (operations config).step b (.recordResult provider r now)) le_rfl
    refine ⟨_, b', (Lib.Run.nil.snoc hb).append hrun, ?_, hstates, hclock⟩
    rw [List.map_append, hevents]
    rfl

theorem selectStep_states (job : Job) (n : ℕ) (s : LoopState) (shared : Shared) :
    (selectStep job n s shared).2.states = shared.states := by
  rcases selectStep_cases job n s shared with ⟨-, h⟩ | ⟨e, counter, -, h⟩ | ⟨p, counter, -, h⟩ <;>
    rw [h]

theorem askStep_states (job : Job) (n : ℕ) (s : LoopState) (p : WeightedProvider)
    (shared : Shared) (now : Instant) : (askStep job n s p shared now).2.1.states =
      (isAvailable job.config.circuitBreaker shared.states p.name now).2 := by
  rcases askStep_cases job n s p shared now with ⟨-, h⟩ | ⟨-, h⟩ <;> rw [h]

/-- What a step does to the breaker, its calls do. -/
theorem Move.breaker {t : Thread} {w : AppState Contents} {action : Action}
    {next : Thread × AppState Contents} (h : Move t w action next)
    (hconfig : t.gateway.config = config) {b : Breaker} (hstates : b.states = w.shared.states)
    (hclock : b.clock ≤ w.clock) :
    ∃ otr b', Lib.Run (operations config.circuitBreaker) b otr b' ∧
      otr.map (·.event) = breakerCalls t w action ∧
      b'.states = next.2.shared.states ∧ b'.clock ≤ next.2.clock := by
  subst hconfig
  cases h with
  | emitted x pending _ => exact ⟨[], b, .nil, rfl, hstates, hclock⟩
  | selected n s _ _ =>
    exact ⟨[], b, .nil, rfl, hstates.trans (selectStep_states ..).symm, hclock⟩
  | asked n s p now hphase _ hnow =>
    have henabled : (operations t.gateway.config.circuitBreaker).enabled b
        (.isAvailable p.name now) := hclock.trans hnow
    refine ⟨_, _, Lib.Run.nil.snoc henabled, ?_, ?_, le_rfl⟩
    · simp only [breakerCalls, hphase]
      rfl
    · refine Eq.trans ?_ (askStep_states ..).symm
      rw [← hstates]
      rfl
  | sent n s q token hphase _ => exact ⟨[], b, .nil, rfl, hstates, hclock⟩
  | received n s q request reply hphase _ => exact ⟨[], b, .nil, rfl, hstates, hclock⟩
  | recorded n s q request reply now hphase _ hnow =>
    obtain ⟨otr, b', hrun, hevents, hstates', hclock'⟩ := record_run
      t.gateway.config.circuitBreaker q.selected.name
      (exchange t.job (t.job.endpoint q.selected) reply).1 (hclock.trans hnow)
    refine ⟨otr, b', hrun, ?_, ?_, hclock'⟩
    · simp only [breakerCalls, hphase]
      exact hevents
    · rw [hstates', hstates]
      rfl

theorem breaker_step (tr : List (RunStep Contents)) (p : Requests Contents)
    (e : Lib.PoolEvent ChatRequest Action (RouteConfig.Event Contents)) (b : Breaker)
    (hrun : Lib.Run (Lib.pool (handlers U J config loadRoutes)) ⟨[], w₀⟩ tr p)
    (henabled : (Lib.pool (handlers U J config loadRoutes)).enabled p e)
    (hb : b.states = p.shared.shared.states ∧ b.clock ≤ p.shared.clock) :
    ∃ otr b', Lib.Run (operations config.circuitBreaker) b otr b' ∧
      otr.map (·.event) = (Lib.stepCalls breakerCalls
        ⟨p, e, (Lib.pool (handlers U J config loadRoutes)).step p e⟩).map (·.2) ∧
      b'.states = ((Lib.pool (handlers U J config loadRoutes)).step p e).shared.shared.states ∧
      b'.clock ≤ ((Lib.pool (handlers U J config loadRoutes)).step p e).shared.clock := by
  cases e with
  | arrive req => exact ⟨[], b, .nil, rfl, hb⟩
  | act i a =>
    obtain ⟨t, hold, hready⟩ := henabled
    obtain ⟨otr, b', hbreaker, hevents, hb'⟩ :=
      (exec_move hready).breaker (thread_config hrun hold) hb.1 hb.2
    refine ⟨otr, b', hbreaker, ?_, ?_⟩
    · rw [hevents, Lib.stepCalls_act hold, List.map_map]
      exact (List.map_id _).symm
    · rw [Lib.step_act hold]
      exact hb'
  | world e => exact ⟨[], b, .nil, rfl, hb⟩

/-- The calls of a run, as a run of the breaker. -/
theorem breaker_trace (hrun : Lib.Run (Lib.pool (handlers U J config loadRoutes)) ⟨[], w₀⟩ tr p) :
    ∃ otr b, Lib.Run (operations config.circuitBreaker) ⟨w₀.shared.states, w₀.clock⟩ otr b ∧
      otr.map (·.event) = (Lib.callLog breakerCalls tr).map (·.2) ∧
      b.states = p.shared.shared.states ∧ b.clock ≤ p.shared.clock := by
  obtain ⟨otr, b, hbreaker, hevents, hstates, hclock⟩ := hrun.simulate
    (fun p (b : Breaker) => b.states = p.shared.shared.states ∧ b.clock ≤ p.shared.clock)
    (fun x => (Lib.stepCalls breakerCalls x).map (·.2)) ⟨w₀.shared.states, w₀.clock⟩
    ⟨rfl, le_rfl⟩ breaker_step
  refine ⟨otr, b, hbreaker, ?_, hstates, hclock⟩
  show otr.map (·.event) = (tr.flatMap (Lib.stepCalls breakerCalls)).map (·.2)
  rw [hevents, List.map_flatMap]

/-- **The circuit breaker.** In every run of any number of requests, the calls
    that they make to the breaker, in the order in which they come, are a run of
    the breaker to the states it has; and of these calls, those of one request are
    the question and the results of each of its attempts, in order and each once. -/
theorem breaker_run (hrun : Lib.Run (Lib.pool (handlers U J config loadRoutes)) ⟨[], w₀⟩ tr p) :
    let log := Lib.callLog breakerCalls tr
    (∃ otr b, Lib.Run (operations config.circuitBreaker) ⟨w₀.shared.states, w₀.clock⟩ otr b ∧
      otr.map (·.event) = log.map (·.2) ∧ b.states = p.shared.shared.states ∧
      b.clock ≤ p.shared.clock) ∧
    ∀ i t, p.threads[i]? = some t →
      (Lib.callsOf i log).map callOf = t.phase.calls ∧
      ∀ s exit, t.phase = .finished s exit →
        (Lib.callsOf i log).map callOf = s.attempts.flatMap Attempt.calls := by
  intro log
  refine ⟨breaker_trace hrun, fun i t hi => ?_⟩
  have hcalls := hrun.callLog_thread breakerCalls callOf (fun t => t.phase.calls)
    (fun req w => arrive_calls _ req w.shared)
    (fun t w a hready => (exec_move hready).calls) hi
  refine ⟨hcalls, fun s exit hphase => hcalls.trans ?_⟩
  rw [hphase]
  rfl

/-- The calls of the first question. -/
theorem breaker_run_twoQuestions :
    (Lib.callsOf 0 (Lib.callLog breakerCalls
      ((Lib.pool exampleHandlers).trace ⟨[], freshState⟩ twoQuestions))).map callOf =
        [("openai", none), ("openai", some .success)] :=
  ((breaker_run twoQuestions_run).2 0 _ rfl).1.trans rfl

/-! ## The balancer -/

/-- A selection among several candidates: the counter value it read. -/
structure Ticket where
  tick : ℕ
  candidates : List WeightedProvider
  selected : WeightedProvider

/-- The selection from `candidates` at `counter`, if it takes a tick. -/
def ticketOf (counter : ℕ) (candidates : List WeightedProvider) : List Ticket :=
  match Balancer.selectProvider counter candidates with
  | (.ok selected, _) => if 2 ≤ candidates.length then [⟨counter, candidates, selected⟩] else []
  | (.error _, _) => []

/-- The selections of a step that take a tick. -/
def tickets (t : Thread) (w : AppState Contents) : Action → List Ticket
  | .select =>
    match t.phase with
    | .select _ s => ticketOf w.shared.counter (candidates t.job s)
    | _ => []
  | _ => []

/-- The selections of a run that took a tick, in order. -/
def ticketLog (tr : List (RunStep Contents)) : List Ticket := (Lib.callLog tickets tr).map (·.2)

/-- Tickets drawn in order from `counter` on, each selecting the entry of its
    tick, with the counter after them. -/
structure Drawn (counter : ℕ) (log : List Ticket) (after : ℕ) : Prop where
  after : after = (counter + log.length) % 2 ^ 64
  ticks : ∀ k x, log[k]? = some x → x.tick = (counter + k) % 2 ^ 64 ∧
    0 < Balancer.totalWeight x.candidates ∧
    x.candidates[Balancer.selectPosition x.tick x.candidates]? = some x.selected

theorem Drawn.concat {counter after : ℕ} {log : List Ticket} (h : Drawn counter log after)
    {x : Ticket} (htick : x.tick = after) (hW : 0 < Balancer.totalWeight x.candidates)
    (hselected : x.candidates[Balancer.selectPosition x.tick x.candidates]? = some x.selected) :
    Drawn counter (log ++ [x]) ((after + 1) % 2 ^ 64) where
  after := by
    rw [h.after, List.length_append, List.length_singleton]
    omega
  ticks k y hy := by
    rcases lt_trichotomy k log.length with hlt | rfl | hgt
    · rw [List.getElem?_append_left hlt] at hy
      exact h.ticks k y hy
    · rw [List.getElem?_concat_length] at hy
      obtain rfl := Option.some.inj hy
      exact ⟨htick.trans h.after, hW, hselected⟩
    · rw [List.getElem?_eq_none (by simpa using hgt)] at hy
      cases hy

/-- A selection takes a tick and selects its entry, or leaves the counter. -/
theorem Drawn.select {counter after : ℕ} {log : List Ticket} (h : Drawn counter log after)
    (candidates : List WeightedProvider) : Drawn counter (log ++ ticketOf after candidates)
      (Balancer.selectProvider after candidates).2 := by
  match candidates with
  | [] => simpa [ticketOf, Balancer.selectProvider] using h
  | [p] => simpa [ticketOf, Balancer.selectProvider] using h
  | p :: q :: ps =>
    have hlen : 2 ≤ (p :: q :: ps).length := by simp
    by_cases hzero : Balancer.totalWeight (p :: q :: ps) = 0
    · simpa [ticketOf, Balancer.selectProvider, hzero] using h
    · have hW := Nat.pos_of_ne_zero hzero
      rw [ticketOf, Balancer.selectProvider_eq hlen hW]
      dsimp only
      rw [if_pos hlen]
      exact h.concat rfl hW (List.getElem?_eq_getElem (Balancer.selectPosition_lt hW after))

theorem selectStep_counter (job : Job) (n : ℕ) (s : LoopState) (shared : Shared) :
    (selectStep job n s shared).2.counter =
      (Balancer.selectProvider shared.counter (candidates job s)).2 := by
  rcases selectStep_cases job n s shared with
    ⟨hempty, h⟩ | ⟨e, counter, hsel, h⟩ | ⟨p, counter, hsel, h⟩
  · rw [h, hempty]
    rfl
  · rw [h, hsel]
  · rw [h, hsel]

theorem askStep_counter (job : Job) (n : ℕ) (s : LoopState) (p : WeightedProvider)
    (shared : Shared) (now : Instant) :
    (askStep job n s p shared now).2.1.counter = shared.counter := by
  rcases askStep_cases job n s p shared now with ⟨-, h⟩ | ⟨-, h⟩ <;> rw [h]

/-- A step draws the tickets it takes. -/
theorem Move.drawn {t : Thread} {w : AppState Contents} {action : Action}
    {next : Thread × AppState Contents} (h : Move t w action next) {counter : ℕ} {log : List Ticket}
    (hlog : Drawn counter log w.shared.counter) :
    Drawn counter (log ++ tickets t w action) next.2.shared.counter := by
  cases h with
  | emitted x pending _ => exact (List.append_nil log).symm ▸ hlog
  | selected n s hphase _ =>
    simp only [tickets, hphase, selectStep_counter]
    exact hlog.select _
  | asked n s p now _ _ _ =>
    rw [askStep_counter]
    exact (List.append_nil log).symm ▸ hlog
  | sent n s q token _ _ => exact (List.append_nil log).symm ▸ hlog
  | received n s q request reply _ _ => exact (List.append_nil log).symm ▸ hlog
  | recorded n s q request reply now _ _ _ => exact (List.append_nil log).symm ▸ hlog

theorem drawn_run (hc : w₀.shared.counter < 2 ^ 64)
    (hrun : Lib.Run (Lib.pool (handlers U J config loadRoutes)) ⟨[], w₀⟩ tr p) :
    Drawn w₀.shared.counter (ticketLog tr) p.shared.shared.counter := by
  induction hrun with
  | nil => exact ⟨(Nat.mod_eq_of_lt hc).symm, by simp [ticketLog, Lib.callLog]⟩
  | @snoc tr p e _ henabled ih =>
    have hlog : ticketLog (tr ++ [⟨p, e, (Lib.pool (handlers U J config loadRoutes)).step p e⟩]) =
        ticketLog tr ++ (Lib.stepCalls tickets
          ⟨p, e, (Lib.pool (handlers U J config loadRoutes)).step p e⟩).map (·.2) := by
      rw [ticketLog, Lib.callLog, List.flatMap_append, List.flatMap_singleton, List.map_append]
      rfl
    rw [hlog]
    cases e with
    | arrive req => exact (List.append_nil (ticketLog tr)).symm ▸ ih
    | act i a =>
      obtain ⟨t, hold, hready⟩ := henabled
      rw [Lib.stepCalls_act hold, List.map_map, Lib.step_act hold]
      exact (List.map_id (tickets t p.shared a)).symm ▸ (exec_move hready).drawn ih
    | world e => exact (List.append_nil (ticketLog tr)).symm ▸ ih

/-- Without wrapping round, the ticks are successive numbers. -/
theorem Drawn.successive {counter after : ℕ} {log : List Ticket} (h : Drawn counter log after)
    (hwrap : counter + log.length ≤ 2 ^ 64) (W : ℕ) : Lib.Successive W (log.map (·.tick)) := by
  refine List.isChain_iff_forall_rel_of_append_cons_cons.mpr fun t t' a b hmap => ?_
  obtain ⟨pre, rest, rfl, -, hrest⟩ := List.map_eq_append_iff.mp hmap
  obtain ⟨x, rest', rfl, rfl, hrest'⟩ := List.map_eq_cons_iff.mp hrest
  obtain ⟨y, post, rfl, rfl, -⟩ := List.map_eq_cons_iff.mp hrest'
  simp only [List.length_append, List.length_cons] at hwrap
  have hx := (h.ticks pre.length x (by simp)).1
  have hy := (h.ticks (pre.length + 1) y (by simp)).1
  rw [Nat.mod_eq_of_lt (by omega)] at hx hy
  rw [hx, hy, Nat.add_assoc]

/-- Successive tickets from one list select each entry as often as its weight. -/
theorem Drawn.selected_perm {counter after : ℕ} {log : List Ticket} (h : Drawn counter log after)
    (hwrap : counter + log.length ≤ 2 ^ 64) {window : List Ticket} (hwindow : window <:+: log)
    {providers : List WeightedProvider} (hsame : ∀ x ∈ window, x.candidates = providers)
    (hlen : window.length = Balancer.totalWeight providers) :
    (window.map (·.selected)).Perm (providers.flatMap fun p => List.replicate p.weight p) := by
  have hselected : ∀ x ∈ window, 0 < Balancer.totalWeight providers ∧
      providers[Balancer.selectPosition x.tick providers]? = some x.selected := by
    intro x hx
    obtain ⟨k, hk⟩ := List.mem_iff_getElem?.mp (hwindow.subset hx)
    exact hsame x hx ▸ (h.ticks k x hk).2
  have hmap : window.map (·.selected) =
      (window.map fun x => Balancer.selectPosition x.tick providers).filterMap (providers[·]?) := by
    rw [List.filterMap_map, ← List.filterMap_eq_map]
    exact List.filterMap_congr fun x hx => (hselected x hx).2.symm
  rw [hmap]
  rcases Nat.eq_zero_or_pos (Balancer.totalWeight providers) with hzero | hW
  · have hzeros : ∀ p ∈ providers, p.weight = 0 := fun p hp =>
      Nat.le_zero.mp (hzero ▸ List.single_le_sum (fun _ _ => Nat.zero_le _) _
        (List.mem_map_of_mem hp))
    obtain rfl := List.length_eq_zero_iff.mp (hlen.trans hzero)
    refine List.Perm.of_eq (Eq.symm (List.flatMap_eq_nil_iff.mpr fun p hp => ?_))
    rw [hzeros p hp, List.replicate_zero]
  have hsuccessive : Lib.Successive (Balancer.totalWeight providers) (window.map (·.tick)) :=
    List.IsChain.infix (h.successive hwrap _) (hwindow.map _)
  have hproportional := Balancer.proportional_of_nodup hW ((List.length_map _).trans hlen)
    (hsuccessive.nodup (((List.length_map _).trans hlen).le))
  refine Lib.perm_of_counts (fun i hi => ?_) fun i hi => ?_
  · obtain ⟨x, -, rfl⟩ := List.mem_map.mp hi
    exact Balancer.selectPosition_lt hW x.tick
  · have hcount := hproportional i hi
    rwa [List.map_map] at hcount

/-- **The balancer.** In every run of any number of requests, the counter is what
    it was plus the number of selections among several candidates, and the `k`-th
    of these reads the `k`-th value and selects its entry: no value is read twice
    and none is skipped. So as many successive selections from one list as its
    total weight, by whatever requests, select each entry as often as its weight. -/
theorem tickets_run (hc : w₀.shared.counter < 2 ^ 64)
    (hrun : Lib.Run (Lib.pool (handlers U J config loadRoutes)) ⟨[], w₀⟩ tr p) :
    Drawn w₀.shared.counter (ticketLog tr) p.shared.shared.counter ∧
    (w₀.shared.counter + (ticketLog tr).length ≤ 2 ^ 64 →
      ∀ window providers, window <:+: ticketLog tr → (∀ x ∈ window, x.candidates = providers) →
        window.length = Balancer.totalWeight providers →
          (window.map (·.selected)).Perm
            (providers.flatMap fun p => List.replicate p.weight p)) := by
  have hdrawn := drawn_run hc hrun
  exact ⟨hdrawn, fun hwrap window providers hwindow hsame hlen =>
    hdrawn.selected_perm hwrap hwindow hsame hlen⟩

/-- The first question has read the counter. -/
theorem tickets_run_twoQuestions :
    Drawn 0 (ticketLog ((Lib.pool exampleHandlers).trace ⟨[], freshState⟩ twoQuestions)) 1 :=
  (tickets_run (by decide) twoQuestions_run).1

end Runs

end Melis.Router
