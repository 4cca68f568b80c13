import Melis.Router.SharedState

/-!
# The metrics account for the requests

Every request makes its metric updates one by one, between the updates of the
others. The registry is nevertheless what the requests account for: no update is
lost, and what a request has updated when it returns is what its attempts, its
compaction and its response say.

* `Thread.Metered`: the updates made and waiting are those of the record.
* `registry_run`: the registry of a run.
-/

namespace Melis.Router

open CircuitBreaker Client Observability

/-! ## What a record accounts for -/

/-- The updates of an attempt. -/
def Attempt.samples (job : Job) (a : Attempt) : List Sample :=
  match a.contact with
  | some c =>
    once .payloadTranslation [] ::
      ((exchangeSamples job a.selected.name c.endpoint c.reply).1 ++
        (exchangeSamples job a.selected.name c.endpoint c.reply).2)
  | none => if a.available job.config then [] else circuitOpenSamples a.selected.name

/-- The updates of the attempts. -/
def LoopState.samples (job : Job) (s : LoopState) : List Sample :=
  s.attempts.flatMap (Attempt.samples job)

/-- What the handler answers without a Google token. -/
def tokenError : GatewayError := .serviceUnavailable "Vertex AI authentication unavailable"

/-- The update of an attempt that had no Google token. -/
def tokenSamples (job : Job) (s : LoopState) : Exit → List Sample
  | .answered (.error e) =>
    if e = tokenError then
      (s.attempts.getLast?.map fun a =>
        once .providerErrorsTotal [(job.endpoint a.selected).providerType, "adc_error"]).toList
    else []
  | _ => []

/-- The updates of the loop so far. -/
def Phase.samples (phase : Phase) (job : Job) : List Sample :=
  match phase with
  | .select _ s => s.samples job
  | .ask _ s _ => s.samples job
  | .send _ s _ => s.samples job
  | .await _ s _ _ => s.samples job ++ [once .payloadTranslation []]
  | .record _ s q _ reply =>
    s.samples job ++ once .payloadTranslation [] ::
      (exchangeSamples job q.selected.name (job.endpoint q.selected) reply).1
  | .finished s exit => s.samples job ++ tokenSamples job s exit

/-- The updates of the compaction, for a payload that is accepted. -/
def Gateway.compactionSamples (G : Gateway) (req : ChatRequest) : List Sample :=
  match validateChatPayload req.payload with
  | .ok () =>
    Router.compactionSamples G.U (G.resolve req).effectiveTokenConfig
      (overrideModel req.payload (G.resolve req).model)
  | .error _ => []

/-- The updates of the request so far. -/
def Thread.samples (t : Thread) : List Sample :=
  t.gateway.compactionSamples t.req ++
    (t.phase.samples t.job ++ t.phase.exitSamples t.req t.providerTypeUsed)

/-- The breaker let the provider through. -/
def Asked.LetThrough (q : Asked) (job : Job) : Prop :=
  (q.attempt none []).available job.config = true

/-- The provider that the request contacts was let through. -/
def Phase.LetThrough (phase : Phase) (job : Job) : Prop :=
  match phase with
  | .send _ _ q => q.LetThrough job
  | .await _ _ q _ => q.LetThrough job
  | .record _ _ q _ _ => q.LetThrough job
  | _ => True

/-- What the request has updated, and what it is about to, is what it accounts
    for. -/
structure Thread.Metered (t : Thread) : Prop where
  letThrough : t.phase.LetThrough t.job
  account : t.emitted ++ t.pending = t.samples

/-! ## The steps -/

section Steps

variable {job : Job} {n : ℕ} {s : LoopState}

theorem next_samples (job : Job) (n : ℕ) (s : LoopState) :
    (Phase.next n s).samples job = s.samples job := by
  cases n with
  | zero => exact List.append_nil _
  | succ n => rfl

theorem next_letThrough (job : Job) (n : ℕ) (s : LoopState) : (Phase.next n s).LetThrough job := by
  cases n <;> trivial

theorem samples_concat (job : Job) (attempts : List Attempt) (a : Attempt) :
    (attempts ++ [a]).flatMap (Attempt.samples job) =
      attempts.flatMap (Attempt.samples job) ++ a.samples job := by
  rw [List.flatMap_append, List.flatMap_singleton]

theorem httpErrorOutcome_ne_tokenError {model : String} {status : ℕ} {body : String}
    {recorded : List CallResult} {e : GatewayError}
    (h : httpErrorOutcome model status body = (recorded, .answer (.error e))) : e ≠ tokenError := by
  rintro rfl
  unfold httpErrorOutcome at h
  split_ifs at h <;> cases h

/-- An answer of the upstream is not taken for a missing token. -/
theorem exchange_ne_tokenError {endpoint : Endpoint} {reply : Reply}
    {recorded : List CallResult} {e : GatewayError}
    (h : exchange job endpoint reply = (recorded, .answer (.error e))) : e ≠ tokenError := by
  unfold exchange at h
  split_ifs at h
  · cases h
  · unfold sendOutcome at h
    split at h
    · split at h
      · cases h
      · cases h
        exact fun h => by cases h
    · exact httpErrorOutcome_ne_tokenError h
    · cases h
    · cases h

theorem tokenSamples_of_ne {s : LoopState} {result : Except GatewayError Response}
    (h : ∀ e, result = .error e → e ≠ tokenError) :
    tokenSamples job s (.answered result) = [] := by
  cases result with
  | error e => exact if_neg (h e rfl)
  | ok r => rfl

/-- An attempt that ends with the verdict of its exchange. -/
theorem settle_samples {q : Asked} {request : UpstreamRequest} {reply : Reply} :
    (settle n s (q.contacted job request reply)
      (exchange job (job.endpoint q.selected) reply).2).samples job =
        s.samples job ++ (q.contacted job request reply).samples job := by
  cases hverdict : (exchange job (job.endpoint q.selected) reply).2 with
  | answer result =>
    rw [settle, Phase.samples, tokenSamples_of_ne, List.append_nil]
    · exact samples_concat ..
    · rintro e rfl
      exact exchange_ne_tokenError (Prod.ext rfl hverdict)
  | retry e =>
    rw [settle, next_samples]
    exact samples_concat ..

theorem settle_letThrough (job : Job) (n : ℕ) (s : LoopState) (a : Attempt) (verdict : Verdict) :
    (settle n s a verdict).LetThrough job := by
  cases verdict with
  | answer result => trivial
  | retry e => exact next_letThrough ..

theorem contacted_samples (job : Job) (q : Asked) (request : UpstreamRequest) (reply : Reply) :
    (q.contacted job request reply).samples job = once .payloadTranslation [] ::
      ((exchangeSamples job q.selected.name (job.endpoint q.selected) reply).1 ++
        (exchangeSamples job q.selected.name (job.endpoint q.selected) reply).2) := rfl

theorem selectStep_samples (job : Job) (n : ℕ) (s : LoopState) (shared : Shared) :
    (selectStep job n s shared).1.samples job = s.samples job ∧
      (selectStep job n s shared).1.LetThrough job := by
  rcases selectStep_cases job n s shared with
    ⟨-, h⟩ | ⟨e, counter, hsel, h⟩ | ⟨p, counter, -, h⟩ <;> rw [h]
  · exact ⟨List.append_nil _, trivial⟩
  · refine ⟨?_, trivial⟩
    rw [Phase.samples, tokenSamples_of_ne, List.append_nil]
    · rfl
    · rintro e' ⟨⟩ rfl
      rcases Balancer.selectProvider_cases shared.counter (candidates job s) with
        ⟨p, -, hp⟩ | ⟨he, -⟩
      · rw [hsel] at hp
        cases hp
      · rw [hsel] at he
        exact absurd (Except.error.inj he) (by decide)
  · exact ⟨rfl, trivial⟩

theorem askStep_samples (job : Job) (n : ℕ) (s : LoopState) (p : WeightedProvider)
    (shared : Shared) (now : Instant) :
    (askStep job n s p shared now).1.samples job =
        s.samples job ++ (askStep job n s p shared now).2.2 ∧
      (askStep job n s p shared now).1.LetThrough job := by
  rcases askStep_cases job n s p shared now with ⟨havail, h⟩ | ⟨havail, h⟩ <;> rw [h]
  · exact ⟨(List.append_nil _).symm, havail⟩
  · refine ⟨?_, next_letThrough ..⟩
    rw [next_samples]
    refine (samples_concat ..).trans (congrArg _ ?_)
    exact if_neg (Bool.eq_false_iff.mp havail)

/-- An attempt without a request counts an error exactly if there was no Google
    token. -/
theorem tokenSamples_unsent {q : Asked} {token : Option String} {e : GatewayError}
    (h : buildRequest job (job.endpoint q.selected) token = .error e) :
    tokenSamples job { s with attempts := s.attempts ++ [q.attempt none []] }
        (.answered (.error e)) = unsentSamples (job.endpoint q.selected) token := by
  unfold buildRequest at h
  unfold unsentSamples
  cases hheaders : buildHeaders (job.endpoint q.selected) token with
  | none =>
    rw [hheaders] at h
    obtain rfl : tokenError = e := Except.error.inj h
    simp only [tokenSamples, if_pos, List.getLast?_concat]
    rfl
  | some headers =>
    rw [hheaders] at h
    dsimp only at h
    split at h
    · obtain rfl := Except.error.inj h
      have hne : GatewayError.internal "Payload translation failed" ≠ tokenError := by decide
      rw [tokenSamples, if_neg hne]
      rfl
    · cases h

theorem sendStep_samples {q : Asked} (hq : q.LetThrough job) (token : Option String) :
    (sendStep job n s q token).1.samples job =
        s.samples job ++ (sendStep job n s q token).2 ∧
      (sendStep job n s q token).1.LetThrough job := by
  rcases sendStep_cases job n s q token with ⟨e, hbuild, h⟩ | ⟨request, -, h⟩ <;> rw [h]
  · refine ⟨?_, trivial⟩
    show (s.attempts ++ [q.attempt none []]).flatMap (Attempt.samples job) ++
      tokenSamples job _ (.answered (.error e)) = _
    rw [samples_concat, show (q.attempt none []).samples job = [] from if_pos hq, List.append_nil]
    exact congrArg _ (tokenSamples_unsent hbuild)
  · exact ⟨rfl, hq⟩

theorem receiveStep_samples {q : Asked} (hq : q.LetThrough job) (request : UpstreamRequest)
    (reply : Reply) : (receiveStep job n s q request reply).1.samples job =
        (s.samples job ++ [once .payloadTranslation []]) ++
          (receiveStep job n s q request reply).2 ∧
      (receiveStep job n s q request reply).1.LetThrough job := by
  rcases receiveStep_cases job n s q request reply with ⟨-, h⟩ | h <;> rw [h]
  · refine ⟨?_, settle_letThrough ..⟩
    rw [settle_samples, contacted_samples, List.append_assoc]
    rfl
  · refine ⟨?_, hq⟩
    show s.samples job ++ once .payloadTranslation [] :: _ = _
    rw [List.append_assoc]
    rfl

theorem recordStep_samples (job : Job) (n : ℕ) (s : LoopState) (q : Asked)
    (request : UpstreamRequest) (reply : Reply) (shared : Shared) (now : Instant) :
    (recordStep job n s q request reply shared now).1.samples job =
        (s.samples job ++ once .payloadTranslation [] ::
          (exchangeSamples job q.selected.name (job.endpoint q.selected) reply).1) ++
          (recordStep job n s q request reply shared now).2.2 ∧
      (recordStep job n s q request reply shared now).1.LetThrough job := by
  refine ⟨?_, settle_letThrough ..⟩
  unfold recordStep
  dsimp only
  rw [settle_samples, contacted_samples, List.append_assoc]
  rfl

end Steps

/-! ## The account of a request -/

/-- A request goes on with the updates that its next phase adds. -/
theorem goTo_metered {t : Thread} {phase : Phase} {samples : List Sample}
    (haccount : t.emitted ++ samples =
      t.gateway.compactionSamples t.req ++ phase.samples t.job)
    (hthrough : phase.LetThrough t.job) : (t.goTo phase samples).Metered where
  letThrough := hthrough
  account := by
    show t.emitted ++ (samples ++ _) = t.gateway.compactionSamples t.req ++
      (phase.samples t.job ++ _)
    rw [← List.append_assoc, haccount, List.append_assoc]
    rfl

/-- What a request has updated, when no update waits and it has not returned. -/
theorem Thread.Metered.emitted_append {t : Thread} (h : t.Metered) (hpending : t.pending = [])
    (hexit : t.phase.exitSamples t.req t.providerTypeUsed = []) {phase : Phase}
    {samples : List Sample} (hsamples : phase.samples t.job = t.phase.samples t.job ++ samples) :
    t.emitted ++ samples = t.gateway.compactionSamples t.req ++ phase.samples t.job := by
  have haccount := h.account
  rw [hpending, List.append_nil, Thread.samples, hexit, List.append_nil] at haccount
  rw [haccount, hsamples, List.append_assoc]

theorem Move.metered {Contents : Type*} {t : Thread} {w : AppState Contents} {action : Action}
    {next : Thread × AppState Contents} (hmove : Move t w action next) (h : t.Metered) :
    next.1.Metered := by
  have hthrough := h.letThrough
  cases hmove with
  | emitted x pending hpending =>
    refine ⟨hthrough, ?_⟩
    have haccount := h.account
    rw [hpending] at haccount
    exact (List.append_assoc ..).trans haccount
  | selected n s hphase hpending =>
    obtain ⟨hsamples, hnext⟩ := selectStep_samples t.job n s w.shared
    refine goTo_metered (h.emitted_append hpending (by rw [hphase]; rfl) ?_) hnext
    rw [hsamples, hphase]
    exact (List.append_nil _).symm
  | asked n s p now hphase hpending _ =>
    obtain ⟨hsamples, hnext⟩ := askStep_samples t.job n s p w.shared now
    refine goTo_metered (h.emitted_append hpending (by rw [hphase]; rfl) ?_) hnext
    rw [hsamples, hphase]
    rfl
  | sent n s q token hphase hpending =>
    rw [hphase] at hthrough
    obtain ⟨hsamples, hnext⟩ := sendStep_samples (n := n) (s := s) hthrough token
    refine goTo_metered (h.emitted_append hpending (by rw [hphase]; rfl) ?_) hnext
    exact hsamples.trans (by rw [hphase]; rfl)
  | received n s q request reply hphase hpending =>
    rw [hphase] at hthrough
    obtain ⟨hsamples, hnext⟩ := receiveStep_samples (n := n) (s := s) hthrough request reply
    refine goTo_metered (h.emitted_append hpending (by rw [hphase]; rfl) ?_) hnext
    rw [hsamples, hphase]
    rfl
  | recorded n s q request reply now hphase hpending _ =>
    obtain ⟨hsamples, hnext⟩ := recordStep_samples t.job n s q request reply w.shared now
    refine goTo_metered (h.emitted_append hpending (by rw [hphase]; rfl) ?_) hnext
    rw [hsamples, hphase]
    rfl

theorem tokenSamples_start (job : Job) (shared : Shared) (exit : Exit) :
    tokenSamples job (.start shared) exit = [] := by
  unfold tokenSamples
  split
  · exact ite_self _
  · rfl

theorem start_samples (job : Job) (shared : Shared) (exit : Exit) :
    (Phase.finished (.start shared) exit).samples job = [] :=
  (List.nil_append _).trans (tokenSamples_start ..)

theorem arrive_metered (G : Gateway) (req : ChatRequest) (shared : Shared) :
    (Thread.arrive G req shared).Metered := by
  unfold Thread.arrive
  dsimp only
  split
  · next e hvalid =>
    refine goTo_metered ?_ trivial
    rw [start_samples, Gateway.compactionSamples, hvalid]
  · next hvalid =>
    refine goTo_metered ?_ (next_letThrough ..)
    rw [next_samples, Gateway.compactionSamples, hvalid]
    exact (List.append_nil _).symm

/-! ## Metrics and labels -/

section Of

theorem attempt_of (job : Job) (a : Attempt) : ∀ x ∈ a.samples job, x.Of attemptMetrics := by
  unfold Attempt.samples
  split
  · exact List.forall_mem_cons.mpr ⟨⟨rfl, by decide⟩, exchangeSamples_of _ _ _ _⟩
  · split_ifs
    · simp
    · exact circuitOpenSamples_of _

theorem loop_of (job : Job) (s : LoopState) : ∀ x ∈ s.samples job, x.Of attemptMetrics :=
  List.forall_mem_flatMap.mpr fun a _ => attempt_of job a

theorem tokenSamples_of (job : Job) (s : LoopState) (exit : Exit) :
    ∀ x ∈ tokenSamples job s exit, x.Of [.providerErrorsTotal] := by
  unfold tokenSamples
  split
  · split_ifs
    · intro x hx
      obtain ⟨a, -, rfl⟩ := Option.mem_map.mp (Option.mem_toList.mp hx)
      exact ⟨rfl, List.mem_singleton_self _⟩
    · simp
  · simp

theorem phase_of (phase : Phase) (job : Job) : ∀ x ∈ phase.samples job, x.Of attemptMetrics := by
  have htranslation : (once .payloadTranslation []).Of attemptMetrics := ⟨rfl, by decide⟩
  cases phase with
  | select n s => exact loop_of job s
  | ask n s p => exact loop_of job s
  | send n s q => exact loop_of job s
  | await n s q request =>
    exact List.forall_mem_append.mpr ⟨loop_of job s, List.forall_mem_singleton.mpr htranslation⟩
  | record n s q request reply =>
    refine List.forall_mem_append.mpr
      ⟨loop_of job s, List.forall_mem_cons.mpr ⟨htranslation, ?_⟩⟩
    exact (List.forall_mem_append.mp (exchangeSamples_of _ _ _ _)).1
  | finished s exit =>
    refine List.forall_mem_append.mpr ⟨loop_of job s, fun x hx => ?_⟩
    refine (tokenSamples_of job s exit x hx).imp_right fun h => ?_
    rw [List.mem_singleton.mp h]
    decide

theorem gateway_of (G : Gateway) (req : ChatRequest) :
    ∀ x ∈ G.compactionSamples req, x.Of compactionMetrics := by
  unfold Gateway.compactionSamples
  split
  · exact compactionSamples_of _ _ _
  · simp

theorem exit_of (phase : Phase) (req : ChatRequest) (providerTypeUsed : String) :
    ∀ x ∈ phase.exitSamples req providerTypeUsed, x.Of exitMetrics := by
  unfold Phase.exitSamples
  split
  · exact exitSamples_of _ _ _
  · simp

theorem thread_wellLabelled (t : Thread) : ∀ x ∈ t.samples, x.WellLabelled :=
  List.forall_mem_append.mpr ⟨fun x hx => (gateway_of _ _ x hx).1,
    List.forall_mem_append.mpr
      ⟨fun x hx => (phase_of _ _ x hx).1, fun x hx => (exit_of _ _ _ x hx).1⟩⟩

end Of

/-! ## The registry of a run -/

section Runs

variable {Contents : Type*} {U : Unicode} {J : SerdeJson} {config : GatewayConfig}
  {loadRoutes : Contents → Option RouteConfigFile} {w₀ : AppState Contents}
  {p : Requests Contents}
  {tr : List (RunStep Contents)}

/-- A step counts in the registry the updates that it counts for the request. -/
theorem Move.registry {t : Thread} {w : AppState Contents} {action : Action}
    {next : Thread × AppState Contents} (h : Move t w action next) (series : Series) :
    next.2.registry series + countHom (tally t.emitted series) =
      w.registry series + countHom (tally next.1.emitted series) := by
  cases h with
  | emitted x pending _ =>
    show w.registry.record x series + _ = _ + countHom (tally (t.emitted ++ [x]) series)
    rw [record_eq, tally_append, map_add, countHom_apply (tally [x] series), add_assoc,
      add_comm (UInt64.ofNat _)]
  | selected _ _ _ _ => rfl
  | asked _ _ _ _ _ _ _ => rfl
  | sent _ _ _ _ _ _ => rfl
  | received _ _ _ _ _ _ _ => rfl
  | recorded _ _ _ _ _ _ _ _ _ => rfl

/-- The updates of a series that the requests have made. -/
def updates (p : Requests Contents) (series : Series) : ℕ := p.total fun t => tally t.emitted series

theorem registry_total
    (hrun : Lib.Run (Lib.pool (handlers U J config loadRoutes)) ⟨[], w₀⟩ tr p) (series : Series) :
    p.shared.registry series = w₀.registry series + UInt64.ofNat (updates p series) := by
  rw [← countHom_apply, updates, Lib.map_total]
  refine hrun.conserved (v := fun w => w.registry series) (fun req w => ?_)
    (fun t w a hready => (exec_move hready).registry series) (fun w e _ => rfl)
  show countHom (tally (Thread.arrive _ req w.shared).emitted series) = 0
  rw [show (Thread.arrive ⟨U, J, config, w.manager.config⟩ req w.shared).emitted = [] from ?_]
  · rfl
  · unfold Thread.arrive
    dsimp only
    split <;> rfl

theorem thread_metered
    (hrun : Lib.Run (Lib.pool (handlers U J config loadRoutes)) ⟨[], w₀⟩ tr p) {i : ℕ} {t : Thread}
    (hi : p.threads[i]? = some t) : t.Metered :=
  hrun.forall_threads (J := Thread.Metered) (fun req w => arrive_metered _ req w.shared)
    (fun _ _ _ hready h => (exec_move hready).metered h) i t hi

/-- **No update lost.** In every run, however the requests are interleaved, each
    series of the registry is what it was plus the updates that the requests have
    made of it; these and the updates that wait are what each request's compaction,
    attempts and response account for, and none of them panics. -/
theorem registry_run
    (hrun : Lib.Run (Lib.pool (handlers U J config loadRoutes)) ⟨[], w₀⟩ tr p) :
    (∀ series, p.shared.registry series =
        w₀.registry series + UInt64.ofNat (updates p series)) ∧
      ∀ (i : ℕ) (t : Thread), p.threads[i]? = some t →
        t.emitted ++ t.pending = t.samples ∧ ∀ x ∈ t.emitted ++ t.pending, x.WellLabelled := by
  refine ⟨registry_total hrun, fun i t hi => ?_⟩
  have haccount := (thread_metered hrun hi).account
  exact ⟨haccount, haccount ▸ thread_wellLabelled t⟩

/-- The responses counted after two questions. -/
theorem registry_run_twoQuestions :
    answeredQuestion.shared.registry ⟨.requestsTotal, ["/v1/chat/completions", "unknown", "200"]⟩ =
      0 + UInt64.ofNat (updates answeredQuestion
        ⟨.requestsTotal, ["/v1/chat/completions", "unknown", "200"]⟩) :=
  (registry_run twoQuestions_run).1 _

end Runs

end Melis.Router
