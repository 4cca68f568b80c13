import Melis.CircuitBreaker.Providers
import Melis.Router.OpenCircuit

/-!
# One provider among the others

All requests in flight share the breaker, whichever providers they try.

* `provider_isolation`: the circuit of a provider depends on the calls about it
  alone.
* `readmitted`: no provider stays shut out.
-/

namespace Melis.Router

open CircuitBreaker

variable {Contents : Type*} {U : Unicode} {J : SerdeJson} {config : GatewayConfig}
  {loadRoutes : Contents → Option RouteConfigFile} {w₀ : AppState Contents}
  {p : Requests Contents} {tr : List (RunStep Contents)}

/-- The answer about a provider depends on its own state. -/
theorem isAvailable_congr {states states' : States} {name : String}
    (h : states name = states' name) (config : CircuitBreakerConfig) (now : Instant) :
    (isAvailable config states name now).1 = (isAvailable config states' name now).1 := by
  unfold isAvailable entry
  rw [h]

/-- **Isolation.** In every run of any number of requests, the state of a provider's
    circuit is that of a breaker that only gets the calls about this provider, at
    the same times; so whether it lets requests through does not depend on how the
    other providers fare. -/
theorem provider_isolation
    (hrun : Lib.Run (Lib.pool (handlers U J config loadRoutes)) ⟨[], w₀⟩ tr p) (name : String) :
    ∃ alone b, Lib.Run (operations config.circuitBreaker) ⟨w₀.shared.states, w₀.clock⟩ alone b ∧
      alone.map (·.event) =
        ((Lib.callLog breakerCalls tr).map (·.2)).filter (·.provider = name) ∧
      b.states name = p.shared.shared.states name ∧
      ∀ now, (isAvailable config.circuitBreaker b.states name now).1 =
        (isAvailable config.circuitBreaker p.shared.shared.states name now).1 := by
  obtain ⟨otr, b, hbreaker, hevents, hstates, -⟩ := breaker_trace hrun
  obtain ⟨alone, b', halone, hevents', hname⟩ := alone_run hbreaker name
  rw [hevents] at hevents'
  rw [hstates] at hname
  exact ⟨alone, b', halone, hevents', hname, isAvailable_congr hname config.circuitBreaker⟩

/-- The refusal is about the first provider, so the second one is as it was. -/
theorem provider_isolation_refusedQuestion :
    ∃ alone b, Lib.Run (operations .default) ⟨.new, 0⟩ alone b ∧ alone.map (·.event) = [] ∧
      b.states "ollama" = afterRefusal.shared.shared.states "ollama" := by
  obtain ⟨alone, b, halone, hevents, hstates, -⟩ :=
    provider_isolation refusedQuestion_run "ollama"
  exact ⟨alone, b, halone, hevents.trans (by decide +kernel), hstates⟩

/-- **Readmission.** In every run of any number of requests from a new breaker, a
    provider is available once the longest backoff has passed since each result
    that was recorded for it, whatever became of the requests in flight. -/
theorem readmitted (hnew : w₀.shared.states = .new)
    (hrun : Lib.Run (Lib.pool (handlers U J config loadRoutes)) ⟨[], w₀⟩ tr p) {name : String}
    {now : Instant}
    (hold : ∀ i r t, (i, Operation.recordResult name r t) ∈ Lib.callLog breakerCalls tr →
      t + longestTtl config.circuitBreaker ≤ now) :
    (isAvailable config.circuitBreaker p.shared.shared.states name now).1 = true := by
  obtain ⟨otr, b, hbreaker, hevents, hstates, -⟩ := breaker_trace hrun
  rw [hnew] at hbreaker
  rw [← hstates]
  refine recovers hbreaker fun r t hmem => ?_
  rw [hevents] at hmem
  obtain ⟨⟨i, op⟩, hcall, rfl⟩ := List.mem_map.mp hmem
  exact hold i r t hcall

/-- The calls of the refused question. -/
theorem refusedQuestion_calls : Lib.callLog breakerCalls
    ((Lib.pool exampleHandlers).trace ⟨[], freshState⟩ refusedQuestion) =
      [(0, .isAvailable "openai" 0), (0, .recordResult "openai" .rateLimited 0)] := by
  decide +kernel

/-- The refusing provider is asked again five minutes later. -/
theorem readmitted_refusedQuestion :
    (isAvailable .default afterRefusal.shared.shared.states "openai"
      (Duration.fromSecs 300)).1 = true := by
  refine readmitted rfl refusedQuestion_run fun i r t hcall => ?_
  rw [refusedQuestion_calls] at hcall
  simp only [List.mem_cons, Prod.mk.injEq, Operation.recordResult.injEq, reduceCtorEq, and_false,
    List.not_mem_nil, or_false, false_or] at hcall
  obtain ⟨-, -, -, rfl⟩ := hcall
  decide

end Melis.Router
