import Melis.CircuitBreaker.Backoff
import Melis.Router.SharedState

/-!
# An open circuit stops traffic

The breaker is asked before a request is built and sent, so requests let through
before a circuit opens may still reach the provider afterwards. They are the only
ones, until the backoff is over.

* `Move.sent_le`: what a step sends while a circuit is open, a request was
  already let through for.
* `opened_sends`: how many requests reach a provider whose circuit is open.
-/

namespace Melis.Router

open CircuitBreaker Client

variable {Contents : Type*}

/-- The provider that a step sends a request to. -/
def sends (t : Thread) (_ : AppState Contents) : Action → List String
  | .send token =>
    match t.phase with
    | .send _ _ q =>
      match buildRequest t.job (t.job.endpoint q.selected) token with
      | .ok _ => [q.selected.name]
      | .error _ => []
    | _ => []
  | _ => []

/-- The request was let through to the provider, and is not sent yet. -/
def Phase.admitted (name : String) : Phase → ℕ
  | .send _ _ q => if q.selected.name = name then 1 else 0
  | _ => 0

/-- The circuit of the provider is open. -/
def Shared.Opened (config : CircuitBreakerConfig) (shared : Shared) (name : String)
    (openUntil : Instant) : Prop :=
  ∃ ttl, (entry config shared.states name).state = .opened openUntil ttl

section Steps

variable {config : CircuitBreakerConfig} {name : String} {openUntil : Instant}

/-- Calls before the deadline keep a circuit open. -/
theorem opened_run {b b' : Breaker} {otr : List (Lib.Step Breaker Operation)} {ttl : Duration}
    (hrun : Lib.Run (operations config) b otr b')
    (hopen : (b.provider config name).state = .opened openUntil ttl)
    (hclock : b'.clock < openUntil) : (b'.provider config name).state = .opened openUntil ttl := by
  induction hrun with
  | nil => exact hopen
  | @snoc otr b' op _ henabled ih =>
    rw [step_clock] at hclock
    exact step_opened (ih (Nat.lt_of_le_of_lt henabled hclock)) hclock

theorem isAvailable_of_opened {shared : Shared} (h : shared.Opened config name openUntil)
    {now : Instant} (hnow : now < openUntil) :
    (isAvailable config shared.states name now).1 = false := by
  obtain ⟨ttl, hstate⟩ := h
  refine Bool.eq_false_iff.mpr fun havail => ?_
  exact absurd (ProviderState.isAvailable_eq_true_iff.mp havail openUntil ttl hstate)
    (not_le_of_gt hnow)

theorem next_admitted (name : String) (n : ℕ) (s : LoopState) :
    (Phase.next n s).admitted name = 0 := by
  cases n <;> rfl

theorem settle_admitted (name : String) (n : ℕ) (s : LoopState) (a : Attempt)
    (verdict : Verdict) : (settle n s a verdict).admitted name = 0 := by
  cases verdict with
  | answer result => rfl
  | retry e => exact next_admitted ..

theorem selectStep_admitted (name : String) (job : Job) (n : ℕ) (s : LoopState)
    (shared : Shared) : (selectStep job n s shared).1.admitted name = 0 := by
  rcases selectStep_cases job n s shared with ⟨-, h⟩ | ⟨e, counter, -, h⟩ | ⟨p, counter, -, h⟩ <;>
    rw [h] <;> rfl

theorem askStep_admitted (job : Job) (n : ℕ) (s : LoopState) (p : WeightedProvider)
    {shared : Shared} {now : Instant}
    (h : shared.Opened job.config.circuitBreaker name openUntil) (hnow : now < openUntil) :
    (askStep job n s p shared now).1.admitted name = 0 := by
  rcases askStep_cases job n s p shared now with ⟨havail, hstep⟩ | ⟨-, hstep⟩ <;> rw [hstep]
  · refine if_neg fun hname => ?_
    rw [show p.name = name from hname, isAvailable_of_opened h hnow] at havail
    exact Bool.false_ne_true havail
  · exact next_admitted ..

theorem receiveStep_admitted (name : String) (job : Job) (n : ℕ) (s : LoopState) (q : Asked)
    (request : UpstreamRequest) (reply : Reply) :
    (receiveStep job n s q request reply).1.admitted name = 0 := by
  rcases receiveStep_cases job n s q request reply with ⟨-, h⟩ | h <;> rw [h]
  · exact settle_admitted ..
  · rfl

/-- While the circuit of `name` is open, a step sends a request there only if it
    was let through before, and lets none through. -/
theorem Move.sent_le {t : Thread} {w : AppState Contents} {action : Action}
    {next : Thread × AppState Contents} (h : Move t w action next)
    (hopen : w.shared.Opened t.gateway.config.circuitBreaker name openUntil)
    (hclock : next.2.clock < openUntil) :
    (sends t w action).count name + next.1.phase.admitted name ≤ t.phase.admitted name := by
  cases h with
  | emitted x pending _ => exact (Nat.zero_add _).le
  | selected n s hphase _ =>
    exact (Nat.zero_add _).trans_le ((selectStep_admitted ..).trans_le (Nat.zero_le _))
  | asked n s p now hphase _ _ =>
    have hnone := askStep_admitted t.job n s p hopen hclock
    exact (Nat.zero_add _).trans_le (hnone.trans_le (Nat.zero_le _))
  | sent n s q token hphase _ =>
    simp only [sends, hphase, sendStep]
    cases buildRequest t.job (t.job.endpoint q.selected) token with
    | error e => exact Nat.zero_le _
    | ok request =>
      show [q.selected.name].count name + 0 ≤ if q.selected.name = name then 1 else 0
      split_ifs with hname
      · rw [hname]
        simp
      · simp [hname]
  | received n s q request reply hphase _ =>
    exact (Nat.zero_add _).trans_le ((receiveStep_admitted ..).trans_le (Nat.zero_le _))
  | recorded n s q request reply now hphase _ _ =>
    exact (Nat.zero_add _).trans_le ((settle_admitted ..).trans_le (Nat.zero_le _))

end Steps

theorem arrive_admitted (name : String) (G : Gateway) (req : ChatRequest) (shared : Shared) :
    (Thread.arrive G req shared).phase.admitted name = 0 := by
  unfold Thread.arrive
  dsimp only
  split
  · rfl
  · exact next_admitted ..

section Runs

variable {U : Unicode} {J : SerdeJson} {config : GatewayConfig}
  {loadRoutes : Contents → Option RouteConfigFile} {w₀ : AppState Contents}
  {m p : Requests Contents}
  {tr₁ tr₂ : List (RunStep Contents)} {name : String} {openUntil : Instant}

theorem Move.clock_le {t : Thread} {w : AppState Contents} {action : Action}
    {next : Thread × AppState Contents} (h : Move t w action next) : w.clock ≤ next.2.clock := by
  cases h with
  | asked _ _ _ _ _ _ hnow => exact hnow
  | recorded _ _ _ _ _ _ _ _ hnow => exact hnow
  | emitted | selected | sent | received => exact le_rfl

/-- The clock of a run does not go back. -/
theorem clock_step {e : Lib.PoolEvent ChatRequest Action (RouteConfig.Event Contents)}
    (henabled : (Lib.pool (handlers U J config loadRoutes)).enabled p e) :
    p.shared.clock ≤ ((Lib.pool (handlers U J config loadRoutes)).step p e).shared.clock := by
  cases e with
  | arrive req => exact le_rfl
  | act i a =>
    obtain ⟨t, hold, hready⟩ := henabled
    rw [Lib.step_act hold]
    exact (exec_move hready).clock_le
  | world e => exact le_rfl

/-- A step before the deadline keeps a circuit open. -/
theorem opened_step (hrun : Lib.Run (Lib.pool (handlers U J config loadRoutes)) ⟨[], w₀⟩ tr₁ p)
    {e : Lib.PoolEvent ChatRequest Action (RouteConfig.Event Contents)}
    (henabled : (Lib.pool (handlers U J config loadRoutes)).enabled p e)
    (hopen : p.shared.shared.Opened config.circuitBreaker name openUntil)
    (hclock : ((Lib.pool (handlers U J config loadRoutes)).step p e).shared.clock < openUntil) :
    ((Lib.pool (handlers U J config loadRoutes)).step p e).shared.shared.Opened
      config.circuitBreaker name openUntil := by
  obtain ⟨ttl, hstate⟩ := hopen
  obtain ⟨otr, b', hbreaker, -, hstates, hle⟩ :=
    breaker_step tr₁ p e ⟨p.shared.shared.states, p.shared.clock⟩ hrun henabled ⟨rfl, le_rfl⟩
  refine ⟨ttl, ?_⟩
  rw [← hstates]
  exact opened_run hbreaker hstate (Nat.lt_of_le_of_lt hle hclock)

/-- **Open circuits.** If a provider's circuit is open at some moment of a run, it
    stays open until its deadline; and until then the requests sent to the
    provider, and those still to be sent, are no more than had been let through
    and not sent at that moment. -/
theorem opened_sends (hrun₁ : Lib.Run (Lib.pool (handlers U J config loadRoutes)) ⟨[], w₀⟩ tr₁ m)
    (hrun₂ : Lib.Run (Lib.pool (handlers U J config loadRoutes)) m tr₂ p)
    (hopen : m.shared.shared.Opened config.circuitBreaker name openUntil)
    (hclock : p.shared.clock < openUntil) :
    p.shared.shared.Opened config.circuitBreaker name openUntil ∧
    ((Lib.callLog sends tr₂).map (·.2)).count name + p.total (·.phase.admitted name) ≤
      m.total (·.phase.admitted name) := by
  induction hrun₂ with
  | nil => exact ⟨hopen, (Nat.zero_add _).le⟩
  | @snoc tr₂ p e hrun₂ henabled ih =>
    obtain ⟨hopen, hcount⟩ := ih (Nat.lt_of_le_of_lt (clock_step henabled) hclock)
    have hrun := hrun₁.append hrun₂
    refine ⟨opened_step hrun henabled hopen hclock, ?_⟩
    rw [Lib.callLog, List.flatMap_append, List.flatMap_singleton, List.map_append,
      List.count_append]
    have hstep : ((Lib.stepCalls sends
        ⟨p, e, (Lib.pool (handlers U J config loadRoutes)).step p e⟩).map (·.2)).count name +
          ((Lib.pool (handlers U J config loadRoutes)).step p e).total (·.phase.admitted name) ≤
        p.total (·.phase.admitted name) := by
      cases e with
      | arrive req =>
        rw [Lib.total_arrive]
        exact (Nat.zero_add _).trans_le (Nat.add_le_add_left (arrive_admitted ..).le _)
      | act i a =>
        obtain ⟨t, hold, hready⟩ := henabled
        rw [Lib.step_act hold] at hclock
        have hle := (exec_move hready).sent_le ((thread_config hrun hold).symm ▸ hopen) hclock
        have htotal := Lib.total_act (P := handlers U J config loadRoutes)
          (fun t : Thread => t.phase.admitted name) hold a
        rw [Lib.stepCalls_act hold, List.map_map]
        have hcalls : (sends t p.shared a).map ((·.2) ∘ (i, ·)) = sends t p.shared a :=
          List.map_id _
        rw [hcalls]
        refine Nat.le_of_add_le_add_right (b := t.phase.admitted name) ?_
        rw [Nat.add_assoc, htotal]
        exact (Nat.add_left_comm ..).trans_le (Nat.add_le_add_left hle _)
      | world e => exact (Nat.zero_add _).le
    rw [Nat.add_assoc]
    exact (Nat.add_le_add_left hstep _).trans hcount

end Runs

/-! ## Example -/

/-- A question is refused by the first provider for its rate. -/
def refusedQuestion :
    List (Lib.PoolEvent ChatRequest Action (RouteConfig.Event RouteConfigFile)) :=
  [.arrive (questionTo "gpt-4o" false), .act 0 .emit, .act 0 .emit, .act 0 .emit, .act 0 .emit,
    .act 0 .emit, .act 0 .select, .act 0 (.ask 0), .act 0 (.send none), .act 0 .emit,
    .act 0 (.receive (.answered 429 (.complete [] ""))), .act 0 .emit, .act 0 .emit,
    .act 0 (.record 0)]

/-- The state of the gateway after the refusal. -/
def afterRefusal : Requests RouteConfigFile :=
  refusedQuestion.foldl (Lib.pool exampleHandlers).step ⟨[], freshState⟩

theorem refusedQuestion_run : Lib.Run (Lib.pool exampleHandlers) ⟨[], freshState⟩
    ((Lib.pool exampleHandlers).trace ⟨[], freshState⟩ refusedQuestion)
    afterRefusal := by
  refine Lib.run_trace _ _ _ ?_
  unfold refusedQuestion
  simp only [Lib.System.trace, List.forall_mem_cons]
  have hemit : ∀ {x : Observability.Sample} {xs : List Observability.Sample}, x :: xs ≠ [] :=
    List.cons_ne_nil _ _
  exact ⟨trivial, ⟨_, rfl, hemit⟩, ⟨_, rfl, hemit⟩, ⟨_, rfl, hemit⟩, ⟨_, rfl, hemit⟩,
    ⟨_, rfl, hemit⟩, ⟨_, rfl, rfl, _, _, rfl⟩, ⟨_, rfl, rfl, le_rfl, _, _, _, rfl⟩,
    ⟨_, rfl, rfl, _, _, _, rfl⟩, ⟨_, rfl, hemit⟩, ⟨_, rfl, rfl, _, _, _, _, rfl⟩,
    ⟨_, rfl, hemit⟩, ⟨_, rfl, hemit⟩, ⟨_, rfl, rfl, le_rfl, _, _, _, _, _, rfl⟩,
    List.forall_mem_nil _⟩

theorem afterRefusal_opened :
    afterRefusal.shared.shared.Opened .default "openai" (Duration.fromSecs 30) :=
  ⟨Duration.fromSecs 30, by decide +kernel⟩

/-- Another question comes in before the deadline. -/
def nextQuestion : List (Lib.PoolEvent ChatRequest Action (RouteConfig.Event RouteConfigFile)) :=
  [.act 0 .emit, .arrive (questionTo "gpt-4o" false)]

theorem nextQuestion_run : Lib.Run (Lib.pool exampleHandlers) afterRefusal
    ((Lib.pool exampleHandlers).trace afterRefusal nextQuestion)
    (nextQuestion.foldl (Lib.pool exampleHandlers).step afterRefusal) := by
  refine Lib.run_trace _ _ _ ?_
  unfold nextQuestion
  simp only [Lib.System.trace, List.forall_mem_cons]
  exact ⟨⟨_, rfl, List.cons_ne_nil _ _⟩, trivial, List.forall_mem_nil _⟩

/-- Nothing is sent to the first provider. -/
theorem opened_sends_nextQuestion :
    ((Lib.callLog sends
      ((Lib.pool exampleHandlers).trace afterRefusal nextQuestion)).map (·.2)).count
        "openai" = 0 := by
  have hclock : (nextQuestion.foldl (Lib.pool exampleHandlers).step afterRefusal).shared.clock <
      Duration.fromSecs 30 := by
    decide +kernel
  have hnone : afterRefusal.total (·.phase.admitted "openai") = 0 := by decide +kernel
  have hle := (opened_sends refusedQuestion_run nextQuestion_run afterRefusal_opened hclock).2
  rw [hnone] at hle
  exact Nat.le_zero.mp ((Nat.le_add_right _ _).trans hle)

end Melis.Router
