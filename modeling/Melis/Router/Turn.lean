import Melis.Router.Failover

/-!
# What the failover loop can do

* `attempt_turn`: everything one turn can do, guards included.
* `failoverFrom_post`: what every turn preserves holds when the loop is left.
* `LoopInv`: the excluded names are those of the attempts, pairwise distinct,
  and every attempt so far let the loop go on.
* `failover_ended`: what holds when the loop is left.
-/

namespace Melis.Router

open CircuitBreaker Client

/-! ## One turn -/

/-- The endpoint of a selected provider. -/
def Job.endpoint (job : Job) (p : WeightedProvider) : Endpoint :=
  endpointOf (findProvider job.config p.name)

/-- The selection of a turn, with the counter after it. -/
def selection (job : Job) (w : Surroundings) (s : LoopState) :
    Except GatewayError WeightedProvider × ℕ :=
  Balancer.selectProvider (w.beforeSelect s.shared).counter (candidates job s)

/-- The breaker's map when a turn asks it. -/
def askedStates (job : Job) (w : Surroundings) (s : LoopState) : States :=
  (w.beforeAsk { w.beforeSelect s.shared with counter := (selection job w s).2 }).states

/-- What a turn records when it selects `p`, before it contacts it. -/
def opening (job : Job) (w : Surroundings) (s : LoopState) (p : WeightedProvider) : Attempt where
  selected := p
  asked := askedStates job w s
  askedAt := w.askNow
  contact := none
  recorded := []

/-- What a turn records when it contacts `p`. -/
def contacting (job : Job) (w : Surroundings) (s : LoopState) (p : WeightedProvider)
    (request : UpstreamRequest) (recorded : List CallResult) : Attempt :=
  { opening job w s p with
    contact := some ⟨job.endpoint p, request, w.reply⟩, recorded }

/-- The breaker's map after its answer for `p`. -/
def answeredStates (job : Job) (w : Surroundings) (s : LoopState) (p : WeightedProvider) : States :=
  (isAvailable job.config.circuitBreaker (askedStates job w s) p.name w.askNow).2

/-- The breaker's map after a turn has recorded `results` for `p`. -/
def recordedStates (job : Job) (w : Surroundings) (states : States) (p : WeightedProvider)
    (results : List CallResult) : States :=
  results.foldl (fun states result =>
    recordResult job.config.circuitBreaker states p.name result w.recordNow) states

/-- What a turn can do. -/
inductive Turn (job : Job) (w : Surroundings) (s : LoopState) : Flow → Prop
  | exhausted (hnone : candidates job s = []) : Turn job w s (.done s .exhausted)
  | unselected (e : GatewayError) (shared : Shared) (hne : candidates job s ≠ [])
      (hselected : (selection job w s).1 = .error e)
      (hweight : Balancer.totalWeight (candidates job s) = 0) :
      Turn job w s (.done { s with shared } (.answered (.error e)))
  | skipped (p : WeightedProvider) (shared : Shared)
      (hselected : (selection job w s).1 = .ok p)
      (hopen : (opening job w s p).available job.config = false)
      (hstates : shared.states = answeredStates job w s p) :
      Turn job w s (.next { s with
        excluded := s.excluded ++ [p.name], shared
        attempts := s.attempts ++ [opening job w s p] })
  | unsent (p : WeightedProvider) (shared : Shared) (e : GatewayError)
      (hselected : (selection job w s).1 = .ok p)
      (hopen : (opening job w s p).available job.config = true)
      (hbuild : buildRequest job (job.endpoint p) w.token = .error e) :
      Turn job w s (.done { s with
        shared, attempts := s.attempts ++ [opening job w s p] } (.answered (.error e)))
  | answered (p : WeightedProvider) (shared : Shared) (request : UpstreamRequest)
      (recorded : List CallResult) (result : Except GatewayError Response)
      (hselected : (selection job w s).1 = .ok p)
      (hopen : (opening job w s p).available job.config = true)
      (hbuild : buildRequest job (job.endpoint p) w.token = .ok request)
      (hexchange : exchange job (job.endpoint p) w.reply = (recorded, .answer result)) :
      Turn job w s (.done { s with
        shared
        attempts := s.attempts ++ [contacting job w s p request recorded] } (.answered result))
  | retried (p : WeightedProvider) (shared : Shared) (request : UpstreamRequest)
      (recorded : List CallResult) (e : GatewayError)
      (hselected : (selection job w s).1 = .ok p)
      (hopen : (opening job w s p).available job.config = true)
      (hbuild : buildRequest job (job.endpoint p) w.token = .ok request)
      (hexchange : exchange job (job.endpoint p) w.reply = (recorded, .retry e))
      (hstates : ∃ counter, shared.states = recordedStates job w
        (w.beforeRecord { counter, states := answeredStates job w s p }).states p recorded) :
      Turn job w s (.next {
        excluded := s.excluded ++ [p.name], lastError := some e, shared
        attempts := s.attempts ++ [contacting job w s p request recorded] })

theorem attempt_turn (job : Job) (w : Surroundings) (s : LoopState) :
    Turn job w s (attempt job w s) := by
  unfold attempt
  split_ifs with hempty
  · exact .exhausted (List.isEmpty_iff.mp hempty)
  dsimp only
  split
  · next e counter hsel =>
    refine .unselected e _ (mt List.isEmpty_iff.mpr hempty) (by rw [selection, hsel]) ?_
    rcases Balancer.selectProvider_cases (w.beforeSelect s.shared).counter (candidates job s) with
      ⟨p, -, hp⟩ | ⟨-, hnil | hzero⟩
    · rw [hsel] at hp
      cases hp
    · exact absurd (List.isEmpty_iff.mpr hnil) hempty
    · exact hzero
  · next p counter hsel =>
    have hselected : (selection job w s).1 = .ok p := by rw [selection, hsel]
    obtain rfl : (selection job w s).2 = counter := by rw [selection, hsel]
    split_ifs with havail
    · unfold contactProvider
      dsimp only
      split
      · next e hbuild => exact .unsent p _ e hselected havail hbuild
      · next request hbuild =>
        cases hex : exchange job (job.endpoint p) w.reply with
        | mk recorded verdict =>
          rw [show endpointOf (findProvider job.config p.name) = job.endpoint p from rfl, hex]
          cases verdict with
          | answer result => exact .answered p _ request recorded result hselected havail hbuild hex
          | retry e => exact .retried p _ request recorded e hselected havail hbuild hex ⟨_, rfl⟩
    · exact .skipped p _ hselected (Bool.eq_false_iff.mpr havail) rfl

section Selection

variable {job : Job} {w : Surroundings} {s : LoopState} {p : WeightedProvider}

theorem mem_candidates : p ∈ candidates job s ↔ p ∈ job.providers ∧ p.name ∉ s.excluded := by
  simp [candidates]

theorem mem_providers_of_selection (h : (selection job w s).1 = .ok p) :
    p ∈ job.providers ∧ p.name ∉ s.excluded :=
  mem_candidates.mp (Balancer.mem_of_selectProvider h)

end Selection

/-! ## The whole loop -/

/-- What every turn that goes on preserves, and what every way out establishes,
    holds when the loop is left. -/
theorem failoverFrom_post {job : Job} {env : ℕ → Surroundings} {I : ℕ → LoopState → Prop}
    {Q : LoopState → Exit → Prop} {m : ℕ}
    (hnext : ∀ i s s', i < m → I i s → Turn job (env i) s (.next s') → I (i + 1) s')
    (hdone : ∀ i s s' exit, i < m → I i s → Turn job (env i) s (.done s' exit) → Q s' exit)
    (hend : ∀ s, I m s → Q s .exhausted) {n i : ℕ} {s : LoopState} (hm : i + n = m) (h : I i s) :
    Q (failoverFrom job env n i s).1 (failoverFrom job env n i s).2 := by
  induction n generalizing i s with
  | zero =>
    obtain rfl : i = m := hm
    exact hend s h
  | succ n ih =>
    have hturn := attempt_turn job (env i) s
    have hi : i < m := by omega
    rw [failoverFrom]
    cases hflow : attempt job (env i) s with
    | next s' =>
      rw [hflow] at hturn
      exact ih (by omega) (hnext i s s' hi h hturn)
    | done s' exit =>
      rw [hflow] at hturn
      exact hdone i s s' exit hi h hturn

/-- The attempt selected a provider of the route, and contacted it only when the
    breaker let it, with the request for its endpoint; what it recorded is what
    the exchange gives. -/
structure Attempt.Sound (job : Job) (a : Attempt) : Prop where
  selected : a.selected ∈ job.providers
  contact : ∀ c, a.contact = some c → a.available job.config = true ∧
    c.endpoint = job.endpoint a.selected ∧
    (∃ token, buildRequest job c.endpoint token = .ok c.request) ∧
    a.recorded = (exchange job c.endpoint c.reply).1

/-- The attempt let the loop go on: the circuit was open, or the exchange is to
    be retried. -/
def Attempt.Retried (job : Job) (a : Attempt) : Prop :=
  (a.contact = none ∧ a.available job.config = false) ∨
    ∃ c e, a.contact = some c ∧ a.available job.config = true ∧
      exchange job c.endpoint c.reply = (a.recorded, .retry e)

/-- The names of the providers attempted. -/
def LoopState.names (s : LoopState) : List String := s.attempts.map (·.selected.name)

/-- The loop before attempt `i`. -/
structure LoopInv (job : Job) (i : ℕ) (s : LoopState) : Prop where
  length : s.attempts.length = i
  excluded : s.excluded = s.names
  nodup : s.names.Nodup
  sound : ∀ a ∈ s.attempts, a.Sound job
  retried : ∀ a ∈ s.attempts, a.Retried job

/-- What holds when the loop is left, with `n` attempts allowed. -/
structure Ended (job : Job) (n : ℕ) (s : LoopState) (exit : Exit) : Prop where
  length : s.attempts.length ≤ n
  nodup : s.names.Nodup
  sound : ∀ a ∈ s.attempts, a.Sound job
  retried : ∀ pre a post, s.attempts = pre ++ a :: post → post ≠ [] → a.Retried job
  exhausted : exit = .exhausted → (∀ a ∈ s.attempts, a.Retried job) ∧
    (s.attempts.length = n ∨ ∀ p ∈ job.providers, p.name ∈ s.names)
  success : ∀ r, exit = .answered (.ok r) → ∃ pre a c, s.attempts = pre ++ [a] ∧
    a.contact = some c ∧ exchange job c.endpoint c.reply = (a.recorded, .answer (.ok r))

section Loop

variable {job : Job} {i n : ℕ} {s : LoopState}

theorem loopInv_start (job : Job) (shared : Shared) : LoopInv job 0 (.start shared) where
  length := rfl
  excluded := rfl
  nodup := List.nodup_nil
  sound := by simp [LoopState.start]
  retried := by simp [LoopState.start]

/-- One more attempt, at a provider not yet excluded. -/
theorem LoopInv.push_sound (h : LoopInv job i s) {a : Attempt} (ha : a.Sound job)
    (hnew : a.selected.name ∉ s.excluded) :
    ((s.attempts ++ [a]).map (·.selected.name)).Nodup ∧
      ∀ b ∈ s.attempts ++ [a], b.Sound job := by
  constructor
  · rw [List.map_append, List.map_singleton]
    refine List.nodup_append.mpr ⟨h.nodup, List.nodup_singleton _, ?_⟩
    rintro x hx y hy rfl
    exact hnew (h.excluded ▸ List.mem_singleton.mp hy ▸ hx)
  · intro b hb
    rcases List.mem_append.mp hb with hb | hb
    · exact h.sound b hb
    · exact List.mem_singleton.mp hb ▸ ha

theorem LoopInv.push (h : LoopInv job i s) {a : Attempt} (ha : a.Sound job)
    (hr : a.Retried job) (hnew : a.selected.name ∉ s.excluded) (lastError : Option GatewayError)
    (shared : Shared) :
    LoopInv job (i + 1)
      ⟨s.excluded ++ [a.selected.name], lastError, shared, s.attempts ++ [a]⟩ where
  length := by simp [h.length]
  excluded := by simp [h.excluded, LoopState.names]
  nodup := (h.push_sound ha hnew).1
  sound := (h.push_sound ha hnew).2
  retried b hb := by
    rcases List.mem_append.mp hb with hb | hb
    · exact h.retried b hb
    · exact List.mem_singleton.mp hb ▸ hr

theorem opening_sound {w : Surroundings} {p : WeightedProvider} (hp : p ∈ job.providers) :
    (opening job w s p).Sound job :=
  ⟨hp, fun _ hc => by cases hc⟩

theorem contacting_sound {w : Surroundings} {p : WeightedProvider} {request : UpstreamRequest}
    {recorded : List CallResult} {verdict : Verdict} (hp : p ∈ job.providers)
    (hopen : (opening job w s p).available job.config = true)
    (hbuild : buildRequest job (job.endpoint p) w.token = .ok request)
    (hexchange : exchange job (job.endpoint p) w.reply = (recorded, verdict)) :
    (contacting job w s p request recorded).Sound job := by
  refine ⟨hp, ?_⟩
  rintro c ⟨⟩
  exact ⟨hopen, rfl, ⟨w.token, hbuild⟩, by rw [hexchange]; rfl⟩

theorem LoopInv.next {w : Surroundings} {s' : LoopState} (h : LoopInv job i s)
    (hturn : Turn job w s (.next s')) : LoopInv job (i + 1) s' := by
  cases hturn with
  | skipped p shared hselected hopen hstates =>
    obtain ⟨hp, hnew⟩ := mem_providers_of_selection hselected
    exact h.push (opening_sound hp) (.inl ⟨rfl, hopen⟩) hnew _ _
  | retried p shared request recorded e hselected hopen hbuild hexchange hstates =>
    obtain ⟨hp, hnew⟩ := mem_providers_of_selection hselected
    exact h.push (contacting_sound hp hopen hbuild hexchange)
      (.inr ⟨_, e, rfl, hopen, hexchange⟩) hnew _ _

/-- The loop is left without an attempt. -/
theorem LoopInv.ended_same (h : LoopInv job i s) (hi : i ≤ n) (shared : Shared) {exit : Exit}
    (hexit : exit = .exhausted → i = n ∨ ∀ p ∈ job.providers, p.name ∈ s.names)
    (hsuccess : ∀ r, exit ≠ .answered (.ok r)) : Ended job n { s with shared } exit where
  length := h.length ▸ hi
  nodup := h.nodup
  sound := h.sound
  retried _ a _ he _ := h.retried a (he ▸ List.mem_append_right _ List.mem_cons_self)
  exhausted he := ⟨h.retried, h.length.symm ▸ hexit he⟩
  success r he := absurd he (hsuccess r)

/-- The loop is left from an attempt. -/
theorem LoopInv.ended_push (h : LoopInv job i s) (hi : i < n) {a : Attempt} (ha : a.Sound job)
    (hnew : a.selected.name ∉ s.excluded) (shared : Shared)
    {result : Except GatewayError Response}
    (hsuccess : ∀ r, result = .ok r → ∃ c, a.contact = some c ∧
      exchange job c.endpoint c.reply = (a.recorded, .answer (.ok r))) :
    Ended job n { s with shared, attempts := s.attempts ++ [a] } (.answered result) where
  length := by simp [h.length]; omega
  nodup := (h.push_sound ha hnew).1
  sound := (h.push_sound ha hnew).2
  retried pre b post he hpost := by
    obtain ⟨q, c, rfl⟩ := (List.eq_nil_or_concat' post).resolve_left hpost
    rw [← List.cons_append, ← List.append_assoc] at he
    obtain ⟨he, -⟩ := List.append_inj' he rfl
    exact h.retried b (he ▸ List.mem_append_right _ List.mem_cons_self)
  exhausted he := by cases he
  success r he := by
    cases he
    obtain ⟨c, hc, hexchange⟩ := hsuccess r rfl
    exact ⟨s.attempts, a, c, rfl, hc, hexchange⟩

theorem LoopInv.done {w : Surroundings} {s' : LoopState} {exit : Exit} (h : LoopInv job i s)
    (hi : i < n) (hturn : Turn job w s (.done s' exit)) : Ended job n s' exit := by
  cases hturn with
  | exhausted hnone =>
    refine h.ended_same (Nat.le_of_lt hi) s.shared (fun _ => .inr fun p hp => ?_) (by simp)
    by_contra hnew
    have : p ∈ candidates job s := mem_candidates.mpr ⟨hp, h.excluded ▸ hnew⟩
    rw [hnone] at this
    cases this
  | unselected e shared hne hselected hweight =>
    exact h.ended_same (Nat.le_of_lt hi) shared (by simp) (by simp)
  | unsent p shared e hselected hopen hbuild =>
    obtain ⟨hp, hnew⟩ := mem_providers_of_selection hselected
    exact h.ended_push hi (opening_sound hp) hnew shared (by simp)
  | answered p shared request recorded result hselected hopen hbuild hexchange =>
    obtain ⟨hp, hnew⟩ := mem_providers_of_selection hselected
    refine h.ended_push hi (contacting_sound hp hopen hbuild hexchange) hnew shared ?_
    rintro r rfl
    exact ⟨_, rfl, hexchange⟩

theorem maxAttempts_le (job : Job) : maxAttempts job ≤ 3 := Nat.min_le_right _ _

/-- What holds when the loop of the handler is left. -/
theorem failover_ended (job : Job) (env : ℕ → Surroundings) (shared : Shared) :
    Ended job (maxAttempts job) (failover job env shared).1 (failover job env shared).2 := by
  refine failoverFrom_post (I := LoopInv job) (fun i s s' _ h hturn => h.next hturn)
    (fun i s s' exit hi h hturn => h.done hi hturn) (fun s h => ?_)
    (Nat.zero_add _) (loopInv_start job shared)
  exact h.ended_same le_rfl s.shared (fun _ => .inl rfl) (by simp)

end Loop

/-! ## What a turn adds -/

/-- The state a turn leads to. -/
def Flow.state : Flow → LoopState
  | .next s => s
  | .done s _ => s

section Attempts

variable {job : Job} {env : ℕ → Surroundings} {w : Surroundings} {s : LoopState}

theorem Turn.attempts_isPrefix {flow : Flow} (h : Turn job w s flow) :
    s.attempts <+: flow.state.attempts := by
  cases h with
  | exhausted _ => exact List.prefix_refl _
  | unselected _ _ _ _ _ => exact List.prefix_refl _
  | skipped _ _ _ _ _ => exact List.prefix_append _ _
  | unsent _ _ _ _ _ _ => exact List.prefix_append _ _
  | answered _ _ _ _ _ _ _ _ _ => exact List.prefix_append _ _
  | retried _ _ _ _ _ _ _ _ _ _ => exact List.prefix_append _ _

/-- The attempts made stay on record. -/
theorem failoverFrom_isPrefix (job : Job) (env : ℕ → Surroundings) (n i : ℕ) (s : LoopState) :
    s.attempts <+: (failoverFrom job env n i s).1.attempts :=
  failoverFrom_post (I := fun _ t => s.attempts <+: t.attempts)
    (Q := fun t _ => s.attempts <+: t.attempts)
    (fun _ _ _ _ h hturn => h.trans hturn.attempts_isPrefix)
    (fun _ _ _ _ _ h hturn => h.trans hturn.attempts_isPrefix) (fun _ h => h) rfl
    (List.prefix_refl _)

theorem failoverFrom_succ_isPrefix (job : Job) (env : ℕ → Surroundings) (n i : ℕ) (s : LoopState) :
    (attempt job (env i) s).state.attempts <+: (failoverFrom job env (n + 1) i s).1.attempts := by
  rw [failoverFrom]
  cases attempt job (env i) s with
  | next s' => exact failoverFrom_isPrefix job env n (i + 1) s'
  | done s' exit => exact List.prefix_refl _

/-- What a turn that selects `p` adds to the record. -/
theorem attempt_of_selected {p : WeightedProvider} (hselected : (selection job w s).1 = .ok p) :
    ((opening job w s p).available job.config = false ∧
      (attempt job w s).state.attempts = s.attempts ++ [opening job w s p]) ∨
    ((opening job w s p).available job.config = true ∧
      ((∃ e, buildRequest job (job.endpoint p) w.token = .error e) ∨
        ∃ request recorded, buildRequest job (job.endpoint p) w.token = .ok request ∧
          (attempt job w s).state.attempts =
            s.attempts ++ [contacting job w s p request recorded])) := by
  have hsame : ∀ q, (selection job w s).1 = .ok q → q = p := by
    intro q hq
    rw [hq] at hselected
    exact Except.ok.inj hselected
  have hturn := attempt_turn job w s
  generalize hflow : attempt job w s = flow at hturn
  cases hturn with
  | exhausted hnone =>
    have hmem := mem_candidates.mpr (mem_providers_of_selection hselected)
    rw [hnone] at hmem
    cases hmem
  | unselected e shared hne hsel hweight =>
    rw [hsel] at hselected
    cases hselected
  | skipped q shared hsel hclosed hstates =>
    obtain rfl := hsame q hsel
    exact .inl ⟨hclosed, rfl⟩
  | unsent q shared e hsel hopen hfail =>
    obtain rfl := hsame q hsel
    exact .inr ⟨hopen, .inl ⟨e, hfail⟩⟩
  | answered q shared request recorded result hsel hopen hbuild hexchange =>
    obtain rfl := hsame q hsel
    exact .inr ⟨hopen, .inr ⟨request, recorded, hbuild, rfl⟩⟩
  | retried q shared request recorded e hsel hopen hbuild hexchange hstates =>
    obtain rfl := hsame q hsel
    exact .inr ⟨hopen, .inr ⟨request, recorded, hbuild, rfl⟩⟩

/-- A provider selected and let through is contacted, if a request is built. -/
theorem attempt_contacts {p : WeightedProvider} {request : UpstreamRequest}
    (hselected : (selection job w s).1 = .ok p)
    (hopen : (opening job w s p).available job.config = true)
    (hbuild : buildRequest job (job.endpoint p) w.token = .ok request) :
    ∃ recorded, (attempt job w s).state.attempts =
      s.attempts ++ [contacting job w s p request recorded] := by
  rcases attempt_of_selected hselected with
    ⟨hclosed, -⟩ | ⟨-, ⟨e, hfail⟩ | ⟨request', recorded, hbuild', hattempts⟩⟩
  · rw [hopen] at hclosed
    cases hclosed
  · rw [hbuild] at hfail
    cases hfail
  · rw [hbuild] at hbuild'
    obtain rfl := Except.ok.inj hbuild'
    exact ⟨recorded, hattempts⟩

/-- A provider selected while its circuit is open is skipped. -/
theorem attempt_skips {p : WeightedProvider} (hselected : (selection job w s).1 = .ok p)
    (hclosed : (opening job w s p).available job.config = false) :
    (attempt job w s).state.attempts = s.attempts ++ [opening job w s p] := by
  rcases attempt_of_selected hselected with ⟨-, hattempts⟩ | ⟨hopen, -⟩
  · exact hattempts
  · rw [hclosed] at hopen
    cases hopen

end Attempts

/-! ## Running alone -/

/-- No other request interferes. -/
structure Surroundings.Quiet (w : Surroundings) : Prop where
  beforeSelect : w.beforeSelect = id
  beforeAsk : w.beforeAsk = id
  beforeRecord : w.beforeRecord = id

/-- No other request interferes, the breaker's clock reads `now`, there is a
    token, and the upstream replies `reply`. -/
def alone (now : Instant) (reply : Reply) : Surroundings where
  beforeSelect := id
  beforeAsk := id
  beforeRecord := id
  askNow := now
  recordNow := now
  token := some "token"
  reply := reply

theorem alone_quiet (now : Instant) (reply : Reply) : (alone now reply).Quiet := ⟨rfl, rfl, rfl⟩

/-! ## The first attempt -/

section First

variable {job : Job} {p : WeightedProvider}

theorem candidates_start (job : Job) (shared : Shared) :
    candidates job (.start shared) = job.providers := by
  simp [candidates, LoopState.start]

/-- From some counter, a run that nothing interferes with selects `p` first. -/
theorem exists_counter_selection (hp : p ∈ job.providers) (hweight : 0 < p.weight) :
    ∃ counter, ∀ (w : Surroundings) (states : States), w.Quiet →
      (selection job w (.start ⟨counter, states⟩)).1 = .ok p := by
  obtain ⟨counter, hcounter⟩ := Balancer.exists_counter_selectProvider hp hweight
  refine ⟨counter, fun w states hw => ?_⟩
  rw [selection, candidates_start, hw.beforeSelect]
  exact hcounter

theorem exists_maxAttempts (hp : p ∈ job.providers) : ∃ n, maxAttempts job = n + 1 := by
  refine Nat.exists_eq_succ_of_ne_zero fun h0 => ?_
  have hpos : 0 < job.providers.length := List.length_pos_of_mem hp
  unfold maxAttempts at h0
  omega

/-- With a provider on the route there is a first attempt. -/
theorem attempt_start_isPrefix (hp : p ∈ job.providers) (env : ℕ → Surroundings)
    (shared : Shared) : (attempt job (env 0) (.start shared)).state.attempts <+:
      (failover job env shared).1.attempts := by
  obtain ⟨n, hn⟩ := exists_maxAttempts hp
  rw [failover, hn]
  exact failoverFrom_succ_isPrefix job env n 0 _

end First

end Melis.Router
