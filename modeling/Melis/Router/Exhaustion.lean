import Melis.Router.SentModel

/-!
# Exhausted providers

One counter bounds the attempts of the loop, and a provider skipped because its
circuit is open uses up an attempt as one that is contacted does.

* `attempts_length_of_exhausted`: an exhausted loop has made all its attempts.
* `covers_iff`: when an exhausted run has tried every provider or contacted
  three.
* `exhaustion_fair_iff`: the breaker states from which every run does.
* `skip_uses_attempt`: with one open circuit among four providers, the fourth is
  not tried.
-/

namespace Melis.Router

open CircuitBreaker Client

/-- Every provider was contacted or reported unavailable. -/
def Covers (config : GatewayConfig) (providers : List WeightedProvider) (s : LoopState) : Prop :=
  ∀ p ∈ providers, ∃ a ∈ s.attempts, a.selected.name = p.name ∧
    (a.contact.isSome = true ∨ a.available config = false)

/-- A run that ends in exhaustion after fewer than three contacts has tried
    every provider. -/
def ExhaustsFairly (config : GatewayConfig) (providers : List WeightedProvider)
    (run : LoopState × Exit) : Prop :=
  run.2 = .exhausted → run.1.contacted.length < 3 → Covers config providers run.1

/-! ## One run -/

section Run

variable {job : Job} {s : LoopState}

/-- Distinct names that are all attempted are no more than the attempts. -/
theorem length_le_of_names (hdistinct : (job.providers.map (·.name)).Nodup)
    (h : ∀ p ∈ job.providers, p.name ∈ s.names) : job.providers.length ≤ s.attempts.length := by
  have hsub : (job.providers.map (·.name)) ⊆ s.names := by
    intro name hname
    obtain ⟨p, hp, rfl⟩ := List.mem_map.mp hname
    exact h p hp
  have := (hdistinct.subperm hsub).length_le
  simpa [LoopState.names] using this

theorem attempts_length_of_exhausted (h : Ended job (maxAttempts job) s .exhausted)
    (hdistinct : (job.providers.map (·.name)).Nodup) :
    s.attempts.length = min job.providers.length 3 := by
  rcases (h.exhausted rfl).2 with hlen | hall
  · exact hlen
  · have := length_le_of_names hdistinct hall
    have := h.length
    unfold maxAttempts at this
    omega

/-- An attempt that let the loop go on covers its provider. -/
theorem Attempt.Retried.covers {a : Attempt} (h : a.Retried job) :
    a.contact.isSome = true ∨ a.available job.config = false := by
  rcases h with ⟨-, hclosed⟩ | ⟨c, e, hc, -, -⟩
  · exact .inr hclosed
  · exact .inl (by rw [hc]; rfl)

/-- As many attempts as providers cover the providers. -/
theorem covers_of_length (h : Ended job (maxAttempts job) s .exhausted)
    (hlen : s.attempts.length = job.providers.length) : Covers job.config job.providers s := by
  have hsub : s.names ⊆ job.providers.map (·.name) := by
    intro name hname
    obtain ⟨a, ha, rfl⟩ := List.mem_map.mp hname
    exact List.mem_map_of_mem (h.sound a ha).selected
  have hperm := (h.nodup.subperm hsub).perm_of_length_le (by simp [LoopState.names, hlen])
  intro p hp
  have hmem : p.name ∈ s.names := hperm.mem_iff.mpr (List.mem_map_of_mem hp)
  obtain ⟨a, ha, hname⟩ := List.mem_map.mp hmem
  exact ⟨a, ha, hname, ((h.exhausted rfl).1 a ha).covers⟩

/-- An exhausted run contacts three providers or covers them all exactly if there
    are at most three, or no attempt met an open circuit. -/
theorem covers_iff (h : Ended job (maxAttempts job) s .exhausted)
    (hdistinct : (job.providers.map (·.name)).Nodup) :
    (s.contacted.length < 3 → Covers job.config job.providers s) ↔
      job.providers.length ≤ 3 ∨ ∀ a ∈ s.attempts, a.available job.config = true := by
  have hlen := attempts_length_of_exhausted h hdistinct
  have hretried := (h.exhausted rfl).1
  constructor
  · intro hfair
    by_contra hnot
    obtain ⟨hmany, hskip⟩ := not_or.mp hnot
    push Not at hskip
    obtain ⟨a, ha, hclosed⟩ := hskip
    -- the skipped attempt is one of three, so fewer are contacts
    have hnone : ¬ a.contact.isSome = true := by
      rcases hretried a ha with ⟨hnone, -⟩ | ⟨c, e, -, hopen, -⟩
      · rw [hnone]
        exact Bool.false_ne_true
      · exact absurd hopen hclosed
    have hlt : s.contacted.length < s.attempts.length :=
      List.length_filter_lt_length_iff_exists.mpr ⟨a, ha, hnone⟩
    have hcovers := hfair (by omega)
    have := length_le_of_names (s := s) hdistinct fun p hp => by
      obtain ⟨b, hb, hname, -⟩ := hcovers p hp
      exact List.mem_map.mpr ⟨b, hb, hname⟩
    omega
  · rintro (hfew | hopen) hcontacted
    · exact covers_of_length h (by omega)
    · have hall : s.contacted = s.attempts := by
        refine List.filter_eq_self.mpr fun a ha => ?_
        rcases hretried a ha with ⟨-, hclosed⟩ | ⟨c, e, hc, -, -⟩
        · rw [hopen a ha] at hclosed
          cases hclosed
        · rw [hc]
          rfl
      rw [hall] at hcontacted
      exact covers_of_length h (by omega)

end Run

/-! ## Runs on their own -/

section Quiet

variable {job : Job} {w : Surroundings} {s : LoopState} {p : WeightedProvider}

theorem askedStates_of_quiet (hw : w.Quiet) : askedStates job w s = s.shared.states := by
  simp [askedStates, hw.beforeSelect, hw.beforeAsk]

theorem recordedStates_other {q : String} (h : q ≠ p.name) (states : States)
    (results : List CallResult) : recordedStates job w states p results q = states q := by
  unfold recordedStates
  induction results generalizing states with
  | nil => rfl
  | cons r results ih => rw [List.foldl_cons, ih, recordResult_other _ _ h]

/-- A turn leaves the breaker's state of every provider it does not select. -/
theorem next_states_other (hw : w.Quiet) {s' : LoopState} (h : Turn job w s (.next s'))
    {q : String} (hq : q ∉ s'.excluded) :
    q ∉ s.excluded ∧ s'.shared.states q = s.shared.states q := by
  cases h with
  | skipped p shared hselected hclosed hstates =>
    obtain ⟨hq, hqp⟩ := not_or.mp (mt List.mem_append.mpr hq)
    refine ⟨hq, ?_⟩
    rw [hstates, answeredStates, isAvailable_other _ _ (mt List.mem_singleton.mpr hqp),
      askedStates_of_quiet hw]
  | retried p shared request recorded e hselected hopen hbuild hexchange hstates =>
    obtain ⟨hq, hqp⟩ := not_or.mp (mt List.mem_append.mpr hq)
    obtain ⟨counter, hstates⟩ := hstates
    have hqp := mt List.mem_singleton.mpr hqp
    refine ⟨hq, ?_⟩
    rw [hstates, recordedStates_other hqp, hw.beforeRecord]
    change answeredStates job w s p q = s.shared.states q
    rw [answeredStates, isAvailable_other _ _ hqp, askedStates_of_quiet hw]

/-- The providers not yet excluded are as `states` has them, and every attempt
    was let through. -/
structure AllOpen (job : Job) (states : States) (s : LoopState) : Prop where
  states : ∀ q, q ∉ s.excluded → s.shared.states q = states q
  attempts : ∀ a ∈ s.attempts, a.available job.config = true

/-- If `states` lets every provider through, so does a turn. -/
theorem AllOpen.opening {states : States} (h : AllOpen job states s) (hw : w.Quiet)
    {start : Instant} (hstart : start ≤ w.askNow)
    (hopen : ∀ p ∈ job.providers,
      (isAvailable job.config.circuitBreaker states p.name start).1 = true)
    (hselected : (selection job w s).1 = .ok p) :
    (opening job w s p).available job.config = true := by
  obtain ⟨hp, hnew⟩ := mem_providers_of_selection hselected
  have hstate : askedStates job w s p.name = states p.name := by
    rw [askedStates_of_quiet hw, h.states p.name hnew]
  refine (isAvailable_congr _ hstate w.askNow).trans ?_
  exact ProviderState.isAvailable_mono hstart (hopen p hp)

theorem AllOpen.push {states : States} (h : AllOpen job states s) {a : Attempt}
    (ha : a.available job.config = true) :
    ∀ b ∈ s.attempts ++ [a], b.available job.config = true := by
  intro b hb
  rcases List.mem_append.mp hb with hb | hb
  · exact h.attempts b hb
  · exact List.mem_singleton.mp hb ▸ ha

/-- A quiet run from `states` that lets every provider through never skips. -/
theorem failover_allOpen {env : ℕ → Surroundings} (hquiet : ∀ i, (env i).Quiet) {shared : Shared}
    {start : Instant} (hstart : ∀ i, start ≤ (env i).askNow)
    (hopen : ∀ p ∈ job.providers,
      (isAvailable job.config.circuitBreaker shared.states p.name start).1 = true) :
    ∀ a ∈ (failover job env shared).1.attempts, a.available job.config = true := by
  refine failoverFrom_post (I := fun _ s => AllOpen job shared.states s)
    (Q := fun s _ => ∀ a ∈ s.attempts, a.available job.config = true) (m := maxAttempts job)
    ?_ ?_ (fun s h => h.attempts) (Nat.zero_add _)
    ⟨fun _ _ => rfl, by simp [LoopState.start]⟩
  · intro i s s' _ h hturn
    refine ⟨fun q hq => ?_, ?_⟩
    · obtain ⟨hq, hsame⟩ := next_states_other (hquiet i) hturn hq
      rw [hsame, h.states q hq]
    · cases hturn with
      | skipped p shared hselected hclosed hstates =>
        rw [h.opening (hquiet i) (hstart i) hopen hselected] at hclosed
        cases hclosed
      | retried p shared request recorded e hselected hav hbuild hexchange hstates =>
        exact h.push hav
  · intro i s s' exit _ h hturn
    cases hturn with
    | exhausted _ => exact h.attempts
    | unselected _ _ _ _ _ => exact h.attempts
    | unsent p shared e hselected hav hbuild => exact h.push hav
    | answered p shared request recorded result hselected hav hbuild hexchange => exact h.push hav

end Quiet

/-! ## Every run -/

section EveryRun

/-- The upstream answers 500. -/
def serverError : Reply := .answered 500 (.complete [] "")

variable {job : Job}

/-- If every provider fails with 500, the providers are exhausted. -/
theorem failover_exhausted (hsend : job.Sendable) (hawaited : job.streaming = false)
    (hweight : ∀ p ∈ job.providers, 0 < p.weight) (times : ℕ → Instant) (shared : Shared) :
    (failover job (fun i => alone (times i) serverError) shared).2 = .exhausted := by
  refine failoverFrom_post (I := fun _ _ => True) (Q := fun _ exit => exit = .exhausted)
    (m := maxAttempts job) (fun _ _ _ _ _ _ => trivial) ?_ (fun _ _ => rfl) (Nat.zero_add _)
    trivial
  intro i s s' exit _ _ hturn
  cases hturn with
  | exhausted _ => rfl
  | unselected e shared hne hselected hzero =>
    obtain ⟨p, hp⟩ := List.exists_mem_of_ne_nil _ hne
    exact absurd hzero (Balancer.totalWeight_ne_zero hp (hweight p (mem_candidates.mp hp).1))
  | unsent p shared e hselected hav hbuild =>
    obtain ⟨request, hok⟩ := exists_buildRequest hsend (job.endpoint p) "token"
    rw [show (alone (times i) serverError).token = some "token" from rfl, hok] at hbuild
    cases hbuild
  | answered p shared request recorded result hselected hav hbuild hexchange =>
    rw [exchange_of_awaited hawaited] at hexchange
    simp [alone, serverError, send, isSuccess, bodyText, sendOutcome, httpErrorOutcome]
      at hexchange

/-- From some counter, the first attempt is at a provider whose circuit is open. -/
theorem exists_skip {p : WeightedProvider} (hp : p ∈ job.providers) (hweight : 0 < p.weight)
    {times : ℕ → Instant} {states : States}
    (hclosed : (isAvailable job.config.circuitBreaker states p.name (times 0)).1 = false) :
    ∃ counter, ∃ a ∈ (failover job (fun i => alone (times i) serverError)
      ⟨counter, states⟩).1.attempts, a.available job.config = false := by
  obtain ⟨counter, hselected⟩ := exists_counter_selection hp hweight
  have hquiet := alone_quiet (times 0) serverError
  have hasked : askedStates job (alone (times 0) serverError) (.start ⟨counter, states⟩) = states :=
    askedStates_of_quiet hquiet
  have havail : (opening job (alone (times 0) serverError) (.start ⟨counter, states⟩) p).available
      job.config = false := (isAvailable_congr _ (congrFun hasked p.name) _).trans hclosed
  refine ⟨counter, _, ?_, havail⟩
  refine (attempt_start_isPrefix hp (fun i => alone (times i) serverError) _).subset ?_
  rw [attempt_skips (hselected _ _ hquiet) havail]
  exact List.mem_append_right _ List.mem_cons_self

/-- Distinct names and states that let every provider through make every quiet run
    fair. -/
theorem exhaustsFairly_of_open (hdistinct : (job.providers.map (·.name)).Nodup)
    {states : States} {times : ℕ → Instant} (hmono : Monotone times)
    (h : job.providers.length ≤ 3 ∨ ∀ p ∈ job.providers,
      (isAvailable job.config.circuitBreaker states p.name (times 0)).1 = true)
    (counter : ℕ) {env : ℕ → Surroundings}
    (henv : ∀ i, (env i).Quiet ∧ (env i).askNow = times i) :
    ExhaustsFairly job.config job.providers (failover job env ⟨counter, states⟩) := by
  intro he
  have hended := failover_ended job env ⟨counter, states⟩
  rw [he] at hended
  refine (covers_iff hended hdistinct).mpr (h.imp_right fun hopen => ?_)
  have hstart : ∀ i, times 0 ≤ (env i).askNow := by
    intro i
    rw [(henv i).2]
    exact hmono (Nat.zero_le i)
  exact failover_allOpen (fun i => (henv i).1) hstart hopen

/-- If every run alone is fair, the route has at most three providers or all are
    let through. -/
theorem open_of_exhaustsFairly (hsend : job.Sendable) (hawaited : job.streaming = false)
    (hweight : ∀ p ∈ job.providers, 0 < p.weight)
    (hdistinct : (job.providers.map (·.name)).Nodup) {states : States} {times : ℕ → Instant}
    (h : ∀ counter, ExhaustsFairly job.config job.providers
      (failover job (fun i => alone (times i) serverError) ⟨counter, states⟩)) :
    job.providers.length ≤ 3 ∨ ∀ p ∈ job.providers,
      (isAvailable job.config.circuitBreaker states p.name (times 0)).1 = true := by
  by_contra hnot
  obtain ⟨hmany, hclosed⟩ := not_or.mp hnot
  push Not at hclosed
  obtain ⟨p, hp, hclosed⟩ := hclosed
  obtain ⟨counter, a, ha, hskip⟩ := exists_skip hp (hweight p hp) (Bool.eq_false_iff.mpr hclosed)
  -- every provider answers 500, so the run is exhausted with a skip in it
  have he := failover_exhausted hsend hawaited hweight times ⟨counter, states⟩
  have hended := failover_ended job (fun i => alone (times i) serverError) ⟨counter, states⟩
  rw [he] at hended
  rcases (covers_iff hended hdistinct).mp (h counter he) with hfew | hopen
  · exact hmany hfew
  · have havail := hopen a ha
    rw [hskip] at havail
    cases havail

/-- **Exhaustion.** On a route of distinct provider names, an awaited request that
    ends exhausted has contacted three providers or covered the route exactly if
    the route has at most three, or no attempt met an open circuit. If the
    weights are positive, that is so of every run from the breaker states
    `states`, with any counter and any replies, exactly if the route has at most
    three providers or `states` lets all of them through. -/
theorem exhaustion_fair_iff (G : Gateway) (req : ChatRequest)
    (haccept : validateChatPayload req.payload = .ok ()) (hawaited : req.streaming = false)
    (hweight : ∀ p ∈ (G.resolve req).providers, 0 < p.weight)
    (hdistinct : ((G.resolve req).providers.map (·.name)).Nodup) :
    let providers := (G.resolve req).providers
    (∀ env shared, let run := chatCompletions G env req shared
      run.2 = .exhausted →
        ((run.1.contacted.length < 3 → Covers G.config providers run.1) ↔
          providers.length ≤ 3 ∨ ∀ a ∈ run.1.attempts, a.available G.config = true)) ∧
    (∀ (states : States) (times : ℕ → Instant), Monotone times →
      ((∀ counter env, (∀ i, (env i).Quiet ∧ (env i).askNow = times i) →
        ExhaustsFairly G.config providers (chatCompletions G env req ⟨counter, states⟩)) ↔
          providers.length ≤ 3 ∨ ∀ p ∈ providers,
            (isAvailable G.config.circuitBreaker states p.name (times 0)).1 = true)) := by
  intro providers
  have hrun : ∀ env shared, chatCompletions G env req shared = failover (G.job req) env shared :=
    fun _ _ => chatCompletions_of_accepted G req haccept
  have hnodup : ((G.job req).providers.map (·.name)).Nodup := hdistinct
  simp only [hrun]
  refine ⟨fun env shared he => ?_, fun states times hmono => ⟨fun hfair => ?_, fun h => ?_⟩⟩
  · have hended := failover_ended (G.job req) env shared
    rw [he] at hended
    exact covers_iff hended hnodup
  · exact open_of_exhaustsFairly (sendable_of_accepted G haccept) hawaited hweight hnodup
      fun counter => hfair counter _ fun i => ⟨alone_quiet (times i) serverError, rfl⟩
  · intro counter env henv
    exact exhaustsFairly_of_open hnodup hmono h counter henv

end EveryRun

/-! ## Example -/

/-- A route to four providers. -/
def fourVendors : Gateway :=
  oneRoute [⟨"openai", 1, "gpt-4o"⟩, ⟨"gemini", 1, "gemini-pro"⟩, ⟨"ollama", 1, "llama3"⟩,
    ⟨"mistral", 1, "mistral-large"⟩]

/-- A route to three of them. -/
def threeVendors : Gateway :=
  oneRoute [⟨"openai", 1, "gpt-4o"⟩, ⟨"gemini", 1, "gemini-pro"⟩, ⟨"ollama", 1, "llama3"⟩]

/-- The circuit of the first provider is open. -/
def firstOpen : Shared where
  counter := 0
  states := recordResult CircuitBreakerConfig.default .new "openai" .rateLimited 0

/-- The provider attempted and whether it was contacted, attempt by attempt. -/
def LoopState.trail (s : LoopState) : List (String × Bool) :=
  s.attempts.map fun a => (a.selected.name, a.contact.isSome)

/-- One provider is skipped and two fail with 500: the request ends exhausted
    after two contacts, and the fourth provider is neither contacted nor asked
    for. -/
theorem skip_uses_attempt :
    let providers := (fourVendors.resolve (questionTo "gpt-4o" false)).providers
    let run := chatCompletions fourVendors (fun _ => alone 0 serverError)
      (questionTo "gpt-4o" false) firstOpen
    (questionTo "gpt-4o" false).streaming = false ∧ (providers.map (·.name)).Nodup ∧
      (∀ p ∈ providers, 0 < p.weight) ∧
      run.1.trail = [("openai", false), ("ollama", true), ("gemini", true)] ∧
      ¬ ExhaustsFairly fourVendors.config providers run := by
  intro providers run
  have htrail : run.1.trail = [("openai", false), ("ollama", true), ("gemini", true)] := by decide
  refine ⟨rfl, by decide, by decide, htrail, fun hfair => ?_⟩
  obtain ⟨a, ha, hname, -⟩ := hfair rfl (by decide) ⟨"mistral", 1, "mistral-large"⟩ (by decide)
  have : ("mistral", a.contact.isSome) ∈ run.1.trail := List.mem_map.mpr ⟨a, ha, by rw [hname]⟩
  rw [htrail] at this
  simp at this

/-- On a route to three providers, the skip leaves none out. -/
theorem exhaustion_fair_threeVendors :
    Covers threeVendors.config (threeVendors.resolve (questionTo "gpt-4o" false)).providers
      (chatCompletions threeVendors (fun _ => alone 0 serverError) (questionTo "gpt-4o" false)
        firstOpen).1 :=
  ((exhaustion_fair_iff threeVendors (questionTo "gpt-4o" false) rfl rfl (by decide)
    (by decide)).1 _ firstOpen rfl).mpr (.inl (by decide)) (by decide)

end Melis.Router
