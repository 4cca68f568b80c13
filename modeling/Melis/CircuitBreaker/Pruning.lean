import Melis.CircuitBreaker.Opening

/-!
# What `prune_window` keeps

`prune_window` keeps the timestamps after `now - window`. If the clock has not yet run
for one window, `checked_sub` fails, and the cutoff falls back to `now`: then nothing is
kept, not even what `record_result` has just pushed.

* `pruneWindow_of_le`: from one window after the origin on, the timestamps of age less
  than the window are kept.
* `pruneWindow_of_lt`: before that, none is.
* `pruneWindow_keeps_iff`: when `prune_window` keeps the window, and `record_result` the
  entry that it has pushed.
* `not_pruneWindow_keeps`: half a minute after the origin, with a window of a minute.
-/

namespace Melis.CircuitBreaker

open ProviderState

variable {window : Duration} {now : Instant} {ts : List Instant}

/-- The timestamps whose age is less than the window. -/
def younger (window : Duration) (now : Instant) (ts : List Instant) : List Instant :=
  ts.filter fun t => decide (now - t < window)

/-- Between `before` and `after` the result has been pushed at `now`, and it is still
    there after pruning: among the requests, and if it is no success among the failures. -/
def KeepsPushed (window : Duration) (now : Instant) (result : CallResult)
    (before after : ProviderState) : Prop :=
  after.totalRequests = pruneWindow before.totalRequests window now ++ [now] ∧
    (result ≠ .success → after.failures = pruneWindow before.failures window now ++ [now])

/-! ## Both sides of the first window -/

/-- The cutoff is `now - window`. -/
theorem pruneWindow_of_le (h : window ≤ now) (hpast : ∀ t ∈ ts, t ≤ now) :
    pruneWindow ts window now = younger window now ts := by
  rw [pruneWindow_eq h, younger]
  refine List.filter_congr fun t ht => ?_
  have hage : now < t + window ↔ now - t < window :=
    (Nat.sub_lt_iff_lt_add' (hpast t ht)).symm
  exact decide_eq_decide.mpr hage

/-- The cutoff is `now`, which no timestamp is after. -/
theorem pruneWindow_of_lt (h : now < window) (hpast : ∀ t ∈ ts, t ≤ now) :
    pruneWindow ts window now = [] := by
  have hcutoff : (now.checkedSub window).getD now = now := by
    rw [Instant.checkedSub, if_neg (Nat.not_le_of_lt h), Option.getD_none]
  rw [pruneWindow, hcutoff, List.filter_eq_nil_iff]
  intro t ht
  rw [decide_eq_true_eq]
  exact Nat.not_lt_of_le (hpast t ht)

/-- No age exceeds the clock reading. -/
theorem younger_of_lt (h : now < window) : younger window now ts = ts := by
  refine List.filter_eq_self.mpr fun t _ => ?_
  have hage : now - t < window := Nat.lt_of_le_of_lt (Nat.sub_le now t) h
  exact decide_eq_true hage

theorem pruneWindow_eq_younger_iff (hpast : ∀ t ∈ ts, t ≤ now) :
    pruneWindow ts window now = younger window now ts ↔ window ≤ now ∨ ts = [] := by
  rcases Nat.lt_or_ge now window with hearly | hlate
  · rw [pruneWindow_of_lt hearly hpast, younger_of_lt hearly,
      or_iff_right (Nat.not_le_of_lt hearly)]
    exact eq_comm
  · exact iff_of_true (pruneWindow_of_le hlate hpast) (.inl hlate)

/-! ## The entry that is pushed -/

theorem pruneWindow_append (ts ts' : List Instant) :
    pruneWindow (ts ++ ts') window now =
      pruneWindow ts window now ++ pruneWindow ts' window now :=
  List.filter_append ..

/-- A timestamp of this moment is kept exactly if there is a cutoff before it. -/
theorem pruneWindow_snoc_iff (hpos : 0 < window) (now : Instant) (ts : List Instant) :
    pruneWindow (ts ++ [now]) window now = pruneWindow ts window now ++ [now] ↔
      window ≤ now := by
  have hpast : ∀ t ∈ [now], t ≤ now := fun t ht => (List.mem_singleton.mp ht).le
  rw [pruneWindow_append, List.append_cancel_left_eq]
  rcases Nat.lt_or_ge now window with hearly | hlate
  · rw [pruneWindow_of_lt hearly hpast]
    exact iff_of_false (List.cons_ne_nil _ _).symm (Nat.not_le_of_lt hearly)
  · rw [pruneWindow_of_le hlate hpast, younger, List.filter_singleton, Nat.sub_self,
      decide_eq_true hpos]
    exact iff_of_true rfl hlate

section Record

variable {config : CircuitBreakerConfig} {provider : ProviderState} {result : CallResult}

theorem keepsPushed_record_iff (hwindow : Duration.fromSecs config.windowDurationSecs = window)
    (hpos : 0 < window) :
    KeepsPushed window now result provider (provider.record config result now) ↔
      window ≤ now := by
  subst hwindow
  have hrequests := pruneWindow_snoc_iff hpos now provider.totalRequests
  have hfailures := pruneWindow_snoc_iff hpos now provider.failures
  refine ⟨fun h => hrequests.mp h.1, fun h => ⟨hrequests.mpr h, fun hresult => ?_⟩⟩
  rw [ProviderState.record, if_neg (by simpa using hresult)]
  exact hfailures.mpr h

/-- Only the success of a probe touches the windows after they are pruned: it starts with
    new ones. -/
theorem keepsPushed_recordResult_iff (h : provider.state = .halfOpen → result ≠ .success) :
    KeepsPushed window now result provider (provider.recordResult config result now) ↔
      KeepsPushed window now result provider (provider.record config result now) := by
  have hstep := recordResult_step config provider result now
  generalize provider.recordResult config result now = after at hstep ⊢
  cases hstep with
  | stays _ _ => exact Iff.rfl
  | opens _ _ => exact Iff.rfl
  | ignored _ _ _ => exact Iff.rfl
  | closes hstate hresult => exact absurd hresult (h hstate)
  | reopens _ _ => exact Iff.rfl

end Record

/-- **When the window is kept.** For every positive window and every clock reading:
    pruning keeps exactly the timestamps of age less than the window if the clock has run
    for one window, or there is nothing to prune, and not otherwise; and `record_result`
    keeps the entry that it pushes if the clock has run for one window, and not
    otherwise. -/
theorem pruneWindow_keeps_iff (window : Duration) (now : Instant) (hpos : 0 < window) :
    (∀ ts : List Instant, (∀ t ∈ ts, t ≤ now) →
      (pruneWindow ts window now = ts.filter (fun t => decide (now - t < window)) ↔
        window ≤ now ∨ ts = [])) ∧
    ∀ (config : CircuitBreakerConfig) (provider : ProviderState) (result : CallResult),
      Duration.fromSecs config.windowDurationSecs = window →
      (KeepsPushed window now result provider (provider.record config result now) ↔
        window ≤ now) ∧
      ((provider.state = .halfOpen → result ≠ .success) →
        (KeepsPushed window now result provider (provider.recordResult config result now) ↔
          window ≤ now)) := by
  refine ⟨fun ts hpast => pruneWindow_eq_younger_iff hpast,
    fun config provider result hwindow => ?_⟩
  have hrecord : KeepsPushed window now result provider (provider.record config result now) ↔
      window ≤ now := keepsPushed_record_iff hwindow hpos
  exact ⟨hrecord, fun h => (keepsPushed_recordResult_iff h).trans hrecord⟩

/-- A minute and a half after the origin, with a window of a minute. -/
theorem pruneWindow_keeps_late :
    pruneWindow [Duration.fromSecs 20, Duration.fromSecs 60] (Duration.fromSecs 60)
        (Duration.fromSecs 90) =
      [Duration.fromSecs 20, Duration.fromSecs 60].filter
        (fun t => decide (Duration.fromSecs 90 - t < Duration.fromSecs 60)) ∧
      KeepsPushed (Duration.fromSecs 60) (Duration.fromSecs 90) .timeout
        (.new (Duration.fromSecs 30)) ((ProviderState.new (Duration.fromSecs 30)).recordResult
          .default .timeout (Duration.fromSecs 90)) := by
  obtain ⟨hprune, hrecord⟩ :=
    pruneWindow_keeps_iff (Duration.fromSecs 60) (Duration.fromSecs 90) (by decide)
  constructor
  · exact (hprune _ (by decide)).mpr (.inl (by decide))
  · exact ((hrecord .default _ .timeout rfl).2 (by decide)).mpr (by decide)

/-- Half a minute after the origin, with a window of a minute, an age of no time is less
    than the window, but the timestamp is removed; and a new provider has no request after
    its first one. -/
theorem not_pruneWindow_keeps :
    (¬ ∀ (ts : List Instant) (window : Duration) (now : Instant), (∀ t ∈ ts, t ≤ now) →
      0 < window →
      pruneWindow ts window now = ts.filter (fun t => decide (now - t < window))) ∧
    ¬ ∀ (config : CircuitBreakerConfig) (provider : ProviderState) (result : CallResult)
        (now : Instant), 0 < config.windowDurationSecs →
      (∀ t ∈ provider.totalRequests ++ provider.failures, t ≤ now) →
      (provider.state = .halfOpen → result ≠ .success) →
      KeepsPushed (Duration.fromSecs config.windowDurationSecs) now result provider
        (provider.recordResult config result now) := by
  constructor
  · intro h
    have hkept := h [Duration.fromSecs 30] (Duration.fromSecs 60) (Duration.fromSecs 30)
      (by decide) (by decide)
    exact absurd hkept (by decide)
  · intro h
    obtain ⟨hkept, -⟩ := h .default (.new (Duration.fromSecs 30)) .timeout (Duration.fromSecs 30)
      (by decide) (by decide) (by decide)
    exact absurd hkept (by decide +kernel)

end Melis.CircuitBreaker
