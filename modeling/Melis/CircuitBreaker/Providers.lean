import Melis.CircuitBreaker.Operations

/-!
# One provider among the others

All providers share one breaker. What becomes of one of them depends on the calls
about it alone, and an open circuit lets the provider through again at the latest
when the longest backoff has passed since a result was recorded for it.

* `alone_run`: the calls about one provider, without the others.
* `recovers`: when a provider is available for certain.
-/

namespace Melis.CircuitBreaker

/-- The provider a call is about. -/
def Operation.provider : Operation → String
  | isAvailable p _ => p
  | recordResult p _ _ => p

variable {config : CircuitBreakerConfig} {p : String} {b b' : Breaker} {op : Operation}

/-! ## Isolation -/

/-- The two states look the same for `p`, the second one with an earlier clock. -/
def LooksSame (p : String) (b b' : Breaker) : Prop :=
  b.states p = b'.states p ∧ b'.clock ≤ b.clock

theorem LooksSame.other (h : LooksSame p b b') (henabled : (operations config).enabled b op)
    (hop : op.provider ≠ p) : LooksSame p ((operations config).step b op) b' := by
  refine ⟨?_, ?_⟩
  · cases op with
    | isAvailable q now => exact (isAvailable_other config b.states (Ne.symm hop) now).trans h.1
    | recordResult q r now =>
      exact (recordResult_other config b.states (Ne.symm hop) r now).trans h.1
  · rw [step_clock]
    exact h.2.trans henabled

theorem LooksSame.own (h : LooksSame p b b') (henabled : (operations config).enabled b op)
    (hop : op.provider = p) : (operations config).enabled b' op ∧
      LooksSame p ((operations config).step b op) ((operations config).step b' op) := by
  subst hop
  have hentry : entry config b.states op.provider = entry config b'.states op.provider := by
    rw [entry, entry, h.1]
  refine ⟨h.2.trans henabled, ?_, by rw [step_clock, step_clock]⟩
  cases op with
  | isAvailable q now =>
    show (isAvailable config b.states q now).2 q = (isAvailable config b'.states q now).2 q
    rw [isAvailable_self, isAvailable_self]
    exact congrArg (fun ps => some (ps.isAvailable now).2) hentry
  | recordResult q r now =>
    show recordResult config b.states q r now q = recordResult config b'.states q r now q
    rw [recordResult_self, recordResult_self]
    exact congrArg (fun ps => some (ps.recordResult config r now)) hentry

/-- The calls about one provider lead to the same state of it without the others. -/
theorem alone_run {b₀ : Breaker} {tr : List (Lib.Step Breaker Operation)}
    (hrun : Lib.Run (operations config) b₀ tr b) (p : String) :
    ∃ alone b', Lib.Run (operations config) b₀ alone b' ∧
      alone.map (·.event) = (tr.map (·.event)).filter (·.provider = p) ∧
      b'.states p = b.states p := by
  obtain ⟨alone, b', hrun', hevents, -, hstates, -⟩ := hrun.purge (·.provider = p)
    (fun _ _ => ()) (LooksSame p) ⟨rfl, le_rfl⟩
    (fun _ _ _ henabled hop h => h.other henabled (of_decide_eq_false hop))
    (fun _ _ _ henabled hop h =>
      ⟨(h.own henabled (of_decide_eq_true hop)).1, rfl, (h.own henabled (of_decide_eq_true hop)).2⟩)
  refine ⟨alone, b', hrun', ?_, hstates.symm⟩
  rw [hevents, List.filter_map]
  rfl

/-! ## Recovery -/

/-- The longest that a circuit stays open. -/
def longestTtl (config : CircuitBreakerConfig) : Duration :=
  max (Duration.fromSecs config.openTtlSecs) (Duration.fromSecs config.maxTtlSecs)

theorem cappedTtl_le (config : CircuitBreakerConfig) (backoff : Duration) :
    ProviderState.cappedTtl config backoff ≤ longestTtl config :=
  le_max_of_le_right (Nat.mul_le_mul_right _ (min_le_right _ _))

/-- An open circuit comes from a result, and ends within the longest backoff after
    it. -/
def OpenedBy (config : CircuitBreakerConfig) (p : String) (ops : List Operation)
    (ps : ProviderState) : Prop :=
  ∀ openUntil ttl, ps.state = .opened openUntil ttl →
    ∃ r now, Operation.recordResult p r now ∈ ops ∧ openUntil ≤ now + longestTtl config

theorem OpenedBy.mono {ops ops' : List Operation} {ps : ProviderState}
    (h : OpenedBy config p ops ps) (hsub : ∀ op ∈ ops, op ∈ ops') : OpenedBy config p ops' ps := by
  intro openUntil ttl hstate
  obtain ⟨r, now, hmem, hle⟩ := h openUntil ttl hstate
  exact ⟨r, now, hsub _ hmem, hle⟩

theorem OpenedBy.step {ops : List Operation} (h : OpenedBy config p ops (b.provider config p))
    (op : Operation) :
    OpenedBy config p (ops ++ [op]) (((operations config).step b op).provider config p) := by
  have hlater : OpenedBy config p (ops ++ [op]) (b.provider config p) :=
    h.mono fun _ hop => List.mem_append_left _ hop
  have heffect := step_effect config b op p
  generalize ((operations config).step b op).provider config p = ps' at heffect ⊢
  cases heffect with
  | other _ _ _ => exact hlater
  | asked now =>
    rcases (b.provider config p).isAvailable_cases now with hsame | ⟨u, d, -, -, hprobe⟩
    · rw [hsame]
      exact hlater
    · rw [hprobe]
      intro openUntil ttl hstate
      cases hstate
  | recorded r now =>
    have hstep := (b.provider config p).recordResult_step config r now
    generalize (b.provider config p).recordResult config r now = ps' at hstep ⊢
    cases hstep with
    | stays hstate htrips => exact hlater
    | opens hstate htrips =>
      intro openUntil ttl hopen
      obtain ⟨rfl, rfl⟩ := CircuitState.opened.inj hopen
      exact ⟨r, now, by simp, Nat.add_le_add_left (le_max_left _ _) now⟩
    | ignored u d hstate => exact hlater
    | closes hstate hresult =>
      intro openUntil ttl hopen
      cases hopen
    | reopens hstate hresult =>
      intro openUntil ttl hopen
      obtain ⟨rfl, rfl⟩ := CircuitState.opened.inj hopen
      exact ⟨r, now, by simp, Nat.add_le_add_left (cappedTtl_le config _) now⟩

theorem openedBy_run {t₀ : Instant} {tr : List (Lib.Step Breaker Operation)}
    (hrun : Lib.Run (operations config) (.new t₀) tr b) (p : String) :
    OpenedBy config p (tr.map (·.event)) (b.provider config p) := by
  induction hrun with
  | nil =>
    intro openUntil ttl hstate
    cases hstate
  | @snoc tr b op _ _ ih =>
    rw [List.map_append]
    exact ih.step op

/-- A provider is available once the longest backoff has passed since every result
    recorded for it. -/
theorem recovers {t₀ : Instant} {tr : List (Lib.Step Breaker Operation)}
    (hrun : Lib.Run (operations config) (.new t₀) tr b) {now : Instant}
    (hold : ∀ r t, Operation.recordResult p r t ∈ tr.map (·.event) →
      t + longestTtl config ≤ now) : (isAvailable config b.states p now).1 = true := by
  refine ProviderState.isAvailable_eq_true_iff.mpr fun openUntil ttl hstate => ?_
  obtain ⟨r, t, hmem, hle⟩ := openedBy_run hrun p openUntil ttl hstate
  exact hle.trans (hold r t hmem)

end Melis.CircuitBreaker
