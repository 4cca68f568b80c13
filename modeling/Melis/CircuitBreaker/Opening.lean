import Melis.CircuitBreaker.Operations

/-!
# When a closed circuit opens

`LocalCircuitBreaker` keeps two vectors of timestamps for a provider, pushed and
pruned at every result, also while the circuit is open or half-open, and cleared
only when a probe closes it. The abstract breaker keeps the whole history of the
provider's results since it was last closed, and looks at those of age less than
the window.

* `filter_isLive_filter`: what was pruned before would be pruned now.
* `Tracks`: what is left of the vectors is what is left of the history.
* `tracks_run`: the vectors track the history in every run.
* `opens_iff`: when a result opens a closed circuit.
-/

namespace Melis.CircuitBreaker

/-! ## The abstract breaker -/

/-- The results of a provider, with the times at which they were recorded. -/
abbrev History := List (CallResult × Instant)

/-- The age of a time is less than the window. -/
def isLive (window : Duration) (now : Instant) (t : Instant) : Bool := decide (now < t + window)

/-- The results whose age is less than the window. -/
def History.recent (window : Duration) (now : Instant) (hist : History) : History :=
  hist.filter fun e => isLive window now e.2

/-- The results other than `Success`. -/
def History.failed (hist : History) : History := hist.filter fun e => e.1 != .success

/-- The percentage of results that are not `Success`. -/
def History.percentFailed (hist : History) : ℚ := 100 * hist.failed.length / hist.length

/-- A result `r` opens the circuit, given the recent results, this one included. Of
    no results there is no percentage. -/
def Opens (config : CircuitBreakerConfig) (r : CallResult) (recent : History) : Prop :=
  r = .rateLimited ∨
    (config.minRequestsInWindow ≤ recent.length ∧ recent ≠ [] ∧
      config.failureThresholdPercent.lt (.finite recent.percentFailed) = true)

/-- The step closes the circuit of `p`. -/
def Closes (config : CircuitBreakerConfig) (p : String) (x : Lib.Step Breaker Operation) : Prop :=
  (x.pre.provider config p).state ≠ .closed ∧ (x.post.provider config p).state = .closed

instance (config : CircuitBreakerConfig) (p : String) (x : Lib.Step Breaker Operation) :
    Decidable (Closes config p x) :=
  inferInstanceAs (Decidable (_ ∧ _))

/-- What a step adds to the history of `p`. -/
def History.extend (config : CircuitBreakerConfig) (p : String) (hist : History)
    (x : Lib.Step Breaker Operation) : History :=
  if Closes config p x then []
  else
    match x.event with
    | .recordResult q r now => if q = p then hist ++ [(r, now)] else hist
    | .isAvailable _ _ => hist

/-- The results recorded for `p` since its circuit was last closed, or since it was
    first seen. -/
def history (config : CircuitBreakerConfig) (p : String) (tr : List (Lib.Step Breaker Operation)) :
    History :=
  tr.foldl (History.extend config p) []

theorem history_snoc (config : CircuitBreakerConfig) (p : String)
    (tr : List (Lib.Step Breaker Operation)) (x : Lib.Step Breaker Operation) :
    history config p (tr ++ [x]) = (history config p tr).extend config p x := by
  rw [history, List.foldl_append]
  rfl

/-! ## Pruning -/

section Pruning

variable {window : Duration} {now later : Instant}

/-- From one window after the origin on, `prune_window` keeps what is live. -/
theorem pruneWindow_eq (h : window ≤ now) (ts : List Instant) :
    pruneWindow ts window now = ts.filter (isLive window now) := by
  unfold pruneWindow
  refine List.filter_congr fun t _ => ?_
  rw [Instant.checkedSub, if_pos h, Option.getD_some]
  exact decide_eq_decide.mpr (Nat.sub_lt_iff_lt_add h)

/-- What is live later is live now. -/
theorem filter_isLive_filter (h : now ≤ later) (ts : List Instant) :
    (ts.filter (isLive window now)).filter (isLive window later) =
      ts.filter (isLive window later) := by
  rw [List.filter_filter]
  refine List.filter_congr fun t _ => ?_
  apply Bool.eq_iff_iff.mpr
  simp only [isLive, Bool.and_eq_true, decide_eq_true_eq]
  exact and_iff_left_of_imp (lt_of_le_of_lt h)

end Pruning

/-! ## The vectors track the history -/

/-- From `clock` on, the live entries of the two vectors are those of the
    history. -/
structure Tracks (window : Duration) (clock : Instant) (hist : History) (ps : ProviderState) :
    Prop where
  totalRequests : ∀ now, clock ≤ now →
    ps.totalRequests.filter (isLive window now) =
      (hist.map Prod.snd).filter (isLive window now)
  failures : ∀ now, clock ≤ now →
    ps.failures.filter (isLive window now) =
      (hist.failed.map Prod.snd).filter (isLive window now)

section Tracks

variable {config : CircuitBreakerConfig} {window : Duration} {clock now : Instant}
  {hist : History} {ps : ProviderState} {r : CallResult}

theorem tracks_new (window : Duration) (clock : Instant) (ttl : Duration) :
    Tracks window clock [] (.new ttl) where
  totalRequests _ _ := rfl
  failures _ _ := rfl

theorem Tracks.later (h : Tracks window clock hist ps) (hle : clock ≤ now) :
    Tracks window now hist ps where
  totalRequests later hlater := h.totalRequests later (hle.trans hlater)
  failures later hlater := h.failures later (hle.trans hlater)

/-- The vectors are all that is tracked. -/
theorem Tracks.congr {ps' : ProviderState} (h : Tracks window clock hist ps)
    (htotal : ps'.totalRequests = ps.totalRequests) (hfailures : ps'.failures = ps.failures) :
    Tracks window clock hist ps' where
  totalRequests now hnow := htotal ▸ h.totalRequests now hnow
  failures now hnow := hfailures ▸ h.failures now hnow

theorem failed_append (hist : History) (e : CallResult × Instant) :
    History.failed (hist ++ [e]) = if e.1 == .success then hist.failed else hist.failed ++ [e] := by
  rw [History.failed, List.filter_append, List.filter_singleton]
  cases h : e.1 == .success <;> simp [bne, h, History.failed]

/-- A result is pushed, and both vectors are pruned. -/
theorem Tracks.record (h : Tracks window clock hist ps) (hle : clock ≤ now)
    (hwindow : Duration.fromSecs config.windowDurationSecs = window) (horigin : window ≤ now)
    (r : CallResult) :
    Tracks window now (hist ++ [(r, now)]) (ps.record config r now) where
  totalRequests later hlater := by
    show (pruneWindow (ps.totalRequests ++ [now]) (Duration.fromSecs _) now).filter _ = _
    rw [hwindow, pruneWindow_eq horigin, filter_isLive_filter hlater, List.filter_append,
      List.map_append, List.filter_append, h.totalRequests later (hle.trans hlater),
      List.map_singleton]
  failures later hlater := by
    show (pruneWindow (if r == .success then ps.failures else ps.failures ++ [now])
      (Duration.fromSecs _) now).filter _ = _
    rw [hwindow, pruneWindow_eq horigin, filter_isLive_filter hlater, failed_append]
    dsimp only
    split_ifs with hr
    · exact h.failures later (hle.trans hlater)
    · rw [List.filter_append, List.map_append, List.filter_append,
        h.failures later (hle.trans hlater), List.map_singleton]

/-- Right after a result is recorded, the vectors hold the recent results. -/
theorem Tracks.lengths (h : Tracks window clock hist ps) (hle : clock ≤ now)
    (hwindow : Duration.fromSecs config.windowDurationSecs = window) (horigin : window ≤ now)
    (r : CallResult) :
    let recent := History.recent window now (hist ++ [(r, now)])
    (ps.record config r now).totalRequests.length = recent.length ∧
      (ps.record config r now).failures.length = recent.failed.length := by
  intro recent
  have hrecord := h.record hle hwindow horigin r
  have hlive : ∀ ts : List Instant, (pruneWindow ts window now).filter (isLive window now) =
      pruneWindow ts window now := by
    intro ts
    rw [pruneWindow_eq horigin, filter_isLive_filter le_rfl]
  have htotal := hrecord.totalRequests now le_rfl
  have hfailures := hrecord.failures now le_rfl
  rw [show (ps.record config r now).totalRequests =
      pruneWindow (ps.totalRequests ++ [now]) (Duration.fromSecs _) now from rfl, hwindow,
    hlive] at htotal
  rw [show (ps.record config r now).failures =
      pruneWindow (if r == .success then ps.failures else ps.failures ++ [now])
        (Duration.fromSecs _) now from rfl, hwindow, hlive] at hfailures
  constructor
  · show (pruneWindow (ps.totalRequests ++ [now]) (Duration.fromSecs _) now).length = _
    rw [hwindow, htotal, List.filter_map, List.length_map]
    rfl
  · show (pruneWindow (if r == .success then ps.failures else ps.failures ++ [now])
      (Duration.fromSecs _) now).length = _
    rw [hwindow, hfailures, List.filter_map, List.length_map]
    show (List.filter _ (List.filter _ _)).length = (List.filter _ (List.filter _ _)).length
    rw [List.filter_filter, List.filter_filter]
    refine congrArg List.length (List.filter_congr fun e _ => ?_)
    exact Bool.and_comm _ _

/-- The failure rate of a closed circuit's check is the percentage of the recent
    results. -/
theorem failureRate_eq {hist : History} (hne : hist ≠ []) :
    ProviderState.failureRate hist.failed.length hist.length = .finite hist.percentFailed := by
  have hlen : (hist.length : ℚ) ≠ 0 := by
    rw [Nat.cast_ne_zero]
    exact List.length_pos_iff.mpr hne |>.ne'
  rw [ProviderState.failureRate, F64.ofNat, F64.ofNat, F64.div, if_neg hlen, F64.mul,
    History.percentFailed]
  congr 1
  ring

theorem failureRate_zero : ProviderState.failureRate 0 0 = .nan := by
  simp [ProviderState.failureRate, F64.ofNat, F64.div, F64.infOfSign, F64.mul]

/-- The check of a closed circuit is that of the abstract breaker. -/
theorem Tracks.trips_iff (h : Tracks window clock hist ps) (hle : clock ≤ now)
    (hwindow : Duration.fromSecs config.windowDurationSecs = window) (horigin : window ≤ now)
    (r : CallResult) :
    ProviderState.trips config (ps.record config r now) r = true ↔
      Opens config r (History.recent window now (hist ++ [(r, now)])) := by
  obtain ⟨htotal, hfailures⟩ := h.lengths hle hwindow horigin r
  generalize History.recent window now (hist ++ [(r, now)]) = recent at htotal hfailures ⊢
  rw [ProviderState.trips, htotal, hfailures, Opens, Bool.or_eq_true, Bool.and_eq_true,
    beq_iff_eq, decide_eq_true_iff]
  refine or_congr_right (and_congr_right fun _ => ?_)
  by_cases hne : recent = []
  · subst hne
    simp [History.failed, failureRate_zero, F64.lt_nan]
  · rw [failureRate_eq hne]
    exact (and_iff_right hne).symm

end Tracks

/-! ## Runs -/

section Runs

variable {config : CircuitBreakerConfig} {p : String} {t₀ : Instant} {s : Breaker}
  {tr : List (Lib.Step Breaker Operation)}

/-- A step that records no result for `p` and does not close it adds nothing. -/
theorem extend_other {hist : History} {x : Lib.Step Breaker Operation}
    (hcloses : ¬ Closes config p x) (h : ∀ r now, x.event ≠ .recordResult p r now) :
    hist.extend config p x = hist := by
  rw [History.extend, if_neg hcloses]
  split
  · next q r now he =>
    refine if_neg ?_
    rintro rfl
    exact h r now he
  · rfl

theorem extend_recorded {hist : History} {x : Lib.Step Breaker Operation} {r : CallResult}
    {now : Instant} (hcloses : ¬ Closes config p x) (h : x.event = .recordResult p r now) :
    hist.extend config p x = hist ++ [(r, now)] := by
  rw [History.extend, if_neg hcloses, h]
  exact if_pos rfl

/-- One step keeps the vectors of `p` on its history. -/
theorem Tracks.step {window : Duration} {hist : History} {op : Operation}
    (h : Tracks window s.clock hist (s.provider config p)) (henabled : s.clock ≤ op.now)
    (hwindow : Duration.fromSecs config.windowDurationSecs = window)
    (horigin : window ≤ op.now) :
    let s' := (operations config).step s op
    Tracks window op.now (hist.extend config p ⟨s, op, s'⟩) (s'.provider config p) := by
  intro s'
  have heffect : Effect config p s op (s'.provider config p) := step_effect config s op p
  have hcloses : Closes config p ⟨s, op, s'⟩ ↔
      (s.provider config p).state ≠ .closed ∧ (s'.provider config p).state = .closed := Iff.rfl
  generalize s'.provider config p = ps' at heffect hcloses ⊢
  cases heffect with
  | other _ hasked hrecorded =>
    rw [extend_other (fun hc => (hcloses.mp hc).1 (hcloses.mp hc).2) hrecorded]
    exact h.later henabled
  | asked now =>
    rcases (s.provider config p).isAvailable_cases now with hsame | ⟨u, d, hopen, hle, hprobe⟩
    · rw [hsame] at hcloses ⊢
      rw [extend_other (fun hc => (hcloses.mp hc).1 (hcloses.mp hc).2) (by simp)]
      exact h.later henabled
    · rw [hprobe] at hcloses ⊢
      rw [extend_other (fun hc => by cases (hcloses.mp hc).2) (by simp)]
      exact (h.later henabled).congr rfl rfl
  | recorded r now =>
    have hrecord := h.record henabled hwindow horigin r
    have hstep := (s.provider config p).recordResult_step config r now
    generalize (s.provider config p).recordResult config r now = ps' at hstep hcloses ⊢
    cases hstep with
    | stays hstate htrips =>
      rw [extend_recorded (fun hc => (hcloses.mp hc).1 hstate) rfl]
      exact hrecord
    | opens hstate htrips =>
      rw [extend_recorded (fun hc => (hcloses.mp hc).1 hstate) rfl]
      exact hrecord.congr rfl rfl
    | ignored u d hstate =>
      have hstill : ((s.provider config p).record config r now).state = .opened u d := hstate
      rw [extend_recorded (fun hc => by rw [hstill] at hcloses; cases (hcloses.mp hc).2) rfl]
      exact hrecord
    | closes hstate hresult =>
      have hc : Closes config p ⟨s, .recordResult p r now, s'⟩ :=
        hcloses.mpr ⟨by rw [hstate]; exact CircuitState.noConfusion, rfl⟩
      rw [History.extend, if_pos hc]
      exact tracks_new window now _
    | reopens hstate hresult =>
      rw [extend_recorded (fun hc => by cases (hcloses.mp hc).2) rfl]
      exact hrecord.congr rfl rfl

/-- The vectors of `p` track its history in every run. -/
theorem tracks_run {window : Duration}
    (hwindow : Duration.fromSecs config.windowDurationSecs = window) (horigin : window ≤ t₀)
    (hrun : Lib.Run (operations config) (.new t₀) tr s) :
    t₀ ≤ s.clock ∧ Tracks window s.clock (history config p tr) (s.provider config p) := by
  induction hrun with
  | nil => exact ⟨le_rfl, tracks_new window t₀ _⟩
  | @snoc tr s op _ henabled ih =>
    have hle : t₀ ≤ op.now := ih.1.trans henabled
    rw [history_snoc, step_clock]
    exact ⟨hle, ih.2.step henabled hwindow (horigin.trans hle)⟩

/-- **Opening.** In every run from a new breaker whose clock readings do not
    decrease and are a window or more after the origin, a result `r` recorded for
    a closed provider at `now` opens its circuit exactly if it is `RateLimited`,
    or if of the results recorded since the circuit was last closed and younger
    than the window, this one included, there are enough and the percentage of
    those that are not `Success` is above the threshold. Where the deadline lies
    beyond `Instant.last`, the call panics (see `DeadlinesFit`). -/
theorem opens_iff {pre post : List (Lib.Step Breaker Operation)}
    {x : Lib.Step Breaker Operation} {r : CallResult} {now : Instant}
    (horigin : Duration.fromSecs config.windowDurationSecs ≤ t₀)
    (hrun : Lib.Run (operations config) (.new t₀) (pre ++ x :: post) s)
    (hevent : x.event = .recordResult p r now)
    (hclosed : (x.pre.provider config p).state = .closed) :
    let window := Duration.fromSecs config.windowDurationSecs
    let results := history config p pre ++ [(r, now)]
    (∃ openUntil ttl, (x.post.provider config p).state = .opened openUntil ttl) ↔
      Opens config r (History.recent window now results) := by
  intro window results
  obtain ⟨hpre, henabled, hpost⟩ := hrun.split
  rw [hevent] at henabled hpost
  obtain ⟨hle, htracks⟩ := @tracks_run config p _ _ _ window rfl horigin hpre
  have hnow : x.pre.clock ≤ now := henabled
  have hstep := (x.pre.provider config p).recordResult_step config r now
  have htrips := htracks.trips_iff hnow rfl (horigin.trans (hle.trans hnow)) r
  rw [hpost, step_recordResult]
  refine Iff.trans ?_ htrips
  generalize (x.pre.provider config p).recordResult config r now = ps' at hstep ⊢
  cases hstep with
  | stays hstate hstays =>
    have hstill : ((x.pre.provider config p).record config r now).state = .closed := hstate
    refine iff_of_false ?_ (Bool.eq_false_iff.mp hstays)
    rintro ⟨u, d, hopened⟩
    rw [hstill] at hopened
    cases hopened
  | opens hstate hopens =>
    exact iff_of_true ⟨_, _, rfl⟩ hopens
  | ignored u d hstate =>
    rw [hclosed] at hstate
    cases hstate
  | closes hstate hresult =>
    rw [hclosed] at hstate
    cases hstate
  | reopens hstate hresult =>
    rw [hclosed] at hstate
    cases hstate

end Runs

/-! ## Example -/

/-- Two results suffice for a decision. -/
def twoResults : CircuitBreakerConfig :=
  { CircuitBreakerConfig.default with minRequestsInWindow := 2 }

/-- A failure, which the window of a minute leaves behind before the next one; a
    success; and the next failure. -/
def failing : List Operation :=
  [.recordResult "openai" .failure (Duration.fromSecs 100),
    .isAvailable "ollama" (Duration.fromSecs 110),
    .recordResult "openai" .success (Duration.fromSecs 120),
    .recordResult "openai" .failure (Duration.fromSecs 161)]

/-- The breaker after these calls. -/
def afterFailing : Breaker :=
  failing.foldl (operations twoResults).step (.new (Duration.fromSecs 60))

/-- One more failure opens the circuit: of three recent results two are failures. -/
theorem opens_iff_failing :
    let last : Operation := .recordResult "openai" .failure (Duration.fromSecs 162)
    ∃ openUntil ttl,
      (((operations twoResults).step afterFailing last).provider twoResults "openai").state =
        .opened openUntil ttl := by
  intro last
  have hfailing := Lib.run_trace (operations twoResults) (.new (Duration.fromSecs 60)) failing (by
    intro x hx
    fin_cases hx <;> show (_ : ℕ) ≤ _ <;> decide)
  have henabled : afterFailing.clock ≤ last.now := by decide
  have hclosed : (afterFailing.provider twoResults "openai").state = .closed := by decide +kernel
  have hhistory : history twoResults "openai"
      ((operations twoResults).trace (.new (Duration.fromSecs 60)) failing) =
      [(.failure, Duration.fromSecs 100), (.success, Duration.fromSecs 120),
        (.failure, Duration.fromSecs 161)] := by decide +kernel
  refine (opens_iff (by decide) (Lib.Run.snoc hfailing henabled) rfl hclosed).mpr (.inr ?_)
  rw [hhistory]
  decide +kernel

end Melis.CircuitBreaker
