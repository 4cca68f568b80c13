import Mathlib

/-!
# Prometheus metrics (`observability.rs`)

The metrics that `Metrics::new` registers, with their names and labels, and the
registry as the counts of all series. `prometheus` is third-party code: a counter
is an atomic `u64` that `inc_by` adds to, a histogram counts its observations
(the values observed are left out), and `with_label_values` panics unless it is
given one value for each label.

* `names_nodup`: no metric is registered twice.
* `record_eq`: what an update adds to each series.
-/

namespace Melis.Observability

/-- The fields of `Metrics` (lines 91–135) that are registered. -/
inductive Metric where
  | requestsTotal
  | llmTokensTotal
  | compressionRatio
  | backendLatency
  | gatewayOverhead
  | requestDuration
  | internalOverhead
  | payloadTranslation
  | compactionDuration
  | failoverTotal
  | circuitBreakerState
  | providerErrorsTotal
  | compactionAppliedTotal
  | compactionSkippedTotal
  | contextOriginalTokens
  | contextFinalTokens
  | contextSavedTokensTotal
  | modelSubstitutionTotal
  | fallbackModeTotal
deriving DecidableEq

namespace Metric

/-- The order of registration (lines 302–358). -/
def registered : List Metric :=
  [requestsTotal, llmTokensTotal, compressionRatio, backendLatency, gatewayOverhead,
    requestDuration, internalOverhead, payloadTranslation, compactionDuration, failoverTotal,
    circuitBreakerState, providerErrorsTotal, compactionAppliedTotal, compactionSkippedTotal,
    contextOriginalTokens, contextFinalTokens, contextSavedTokensTotal, modelSubstitutionTotal,
    fallbackModeTotal]

/-- The name a metric is registered under (lines 145–300). -/
def name : Metric → String
  | requestsTotal => "melis_gateway_requests_total"
  | llmTokensTotal => "melis_llm_tokens_total"
  | compressionRatio => "melis_context_compression_ratio"
  | backendLatency => "melis_backend_latency_seconds"
  | gatewayOverhead => "melis_gateway_overhead_seconds"
  | requestDuration => "melis_request_duration_seconds"
  | internalOverhead => "melis_gateway_internal_overhead_seconds"
  | payloadTranslation => "melis_payload_translation_seconds"
  | compactionDuration => "melis_compaction_duration_seconds"
  | failoverTotal => "melis_failover_total"
  | circuitBreakerState => "melis_circuit_breaker_state"
  | providerErrorsTotal => "melis_provider_errors_total"
  | compactionAppliedTotal => "melis_compaction_applied_total"
  | compactionSkippedTotal => "melis_compaction_skipped_total"
  | contextOriginalTokens => "melis_context_original_tokens"
  | contextFinalTokens => "melis_context_final_tokens"
  | contextSavedTokensTotal => "melis_context_saved_tokens_total"
  | modelSubstitutionTotal => "melis_model_substitution_total"
  | fallbackModeTotal => "melis_fallback_mode_total"

/-- The labels of a metric (lines 145–300). -/
def labels : Metric → List String
  | requestsTotal => ["route", "client", "status"]
  | llmTokensTotal => ["direction", "model", "client_id"]
  | backendLatency => ["provider"]
  | requestDuration => ["route", "provider"]
  | failoverTotal => ["provider", "reason"]
  | circuitBreakerState => ["provider"]
  | providerErrorsTotal => ["provider", "status_code"]
  | compactionSkippedTotal => ["reason"]
  | modelSubstitutionTotal => ["requested_model", "resolved_model", "reason"]
  | fallbackModeTotal => ["original_provider", "fallback_provider", "reason"]
  | _ => []

end Metric

/-- A metric with a value for each of its labels. -/
structure Series where
  metric : Metric
  values : List String
deriving DecidableEq

/-- One update: the argument of `inc_by`, or 1 for an observation. -/
structure Sample where
  series : Series
  amount : ℕ
deriving DecidableEq

/-- `with_label_values(values).inc()`, and `observe` on a histogram. -/
def once (metric : Metric) (values : List String) : Sample := ⟨⟨metric, values⟩, 1⟩

/-- `with_label_values(values).inc_by(amount)`. -/
def incBy (metric : Metric) (values : List String) (amount : ℕ) : Sample :=
  ⟨⟨metric, values⟩, amount⟩

/-- `with_label_values` does not panic: there is one value for each label. -/
def Sample.WellLabelled (x : Sample) : Prop :=
  x.series.values.length = x.series.metric.labels.length

/-- An update of one of `metrics` that does not panic. -/
def Sample.Of (metrics : List Metric) (x : Sample) : Prop :=
  x.WellLabelled ∧ x.series.metric ∈ metrics

/-- The counts of all series, `u64` that wrap round. -/
abbrev Registry := Series → UInt64

/-- The registry after `Metrics::new`. Its updates by 0 (lines 360–379) only make
    series visible. -/
def Registry.new : Registry := 0

/-- One update. -/
def Registry.record (r : Registry) (x : Sample) : Registry :=
  Function.update r x.series (r x.series + UInt64.ofNat x.amount)

/-- What updates add to every series. -/
def tally (xs : List Sample) : Series → ℕ := fun series =>
  ((xs.filter fun x => x.series = series).map (·.amount)).sum

/-- Registration does not panic: the names are pairwise different. -/
theorem names_nodup : (Metric.registered.map Metric.name).Nodup := by decide

section Tally

variable (series : Series)

@[simp] theorem tally_nil : tally [] series = 0 := rfl

@[simp] theorem tally_cons (x : Sample) (xs : List Sample) :
    tally (x :: xs) series = (if x.series = series then x.amount else 0) + tally xs series := by
  by_cases h : x.series = series <;> simp [tally, h]

@[simp] theorem tally_append (xs ys : List Sample) :
    tally (xs ++ ys) series = tally xs series + tally ys series := by
  simp [tally]

theorem tally_eq_zero {series : Series} {xs : List Sample} (h : ∀ x ∈ xs, x.series ≠ series) :
    tally xs series = 0 := by
  unfold tally
  rw [List.filter_eq_nil_iff.mpr fun x hx hsame => h x hx (of_decide_eq_true hsame)]
  rfl

/-- Updates of other metrics add nothing. -/
theorem tally_of {metric : Metric} {metrics : List Metric} {xs : List Sample}
    (h : ∀ x ∈ xs, x.Of metrics) (hmetric : metric ∉ metrics) (values : List String) :
    tally xs ⟨metric, values⟩ = 0 := by
  refine tally_eq_zero fun x hx hsame => hmetric ?_
  have hseries := (h x hx).2
  rwa [hsame] at hseries

/-- What adds naturals adds counts that wrap round. -/
def countHom : ℕ →+ UInt64 := ⟨⟨UInt64.ofNat, rfl⟩, UInt64.ofNat_add⟩

@[simp] theorem countHom_apply (n : ℕ) : countHom n = UInt64.ofNat n := rfl

theorem record_eq (r : Registry) (x : Sample) :
    r.record x series = r series + UInt64.ofNat (tally [x] series) := by
  rw [tally_cons, tally_nil, Nat.add_zero]
  by_cases h : x.series = series
  · subst h
    simp [Registry.record]
  · simp [Registry.record, h, Function.update_of_ne (Ne.symm h)]

end Tally

end Melis.Observability
