import Melis.CircuitBreaker.Model
import Melis.Lib.Run

/-!
# The half-open protocol

Calls to the breaker as a transition system: a call asks `is_available`, and if
it is admitted it delivers one result, at any time. Calls overlap freely and the
clock readings are arbitrary.

`HalfOpen` admits every call that asks, and takes the result of any call as the
probe's. `Protocol` is what the documentation promises: one probe, whose result
decides.

* `ask_other`: only events of a provider change it.
* `entry_cases`: a provider becomes half-open by admitting a call.
* `probe_eq_of_segment`: while a provider stays half-open its probe stays.
* `protocol_iff`: a run follows the protocol exactly when no call asks for a
  half-open provider and no call but the probe delivers a result to it.
* `second_probe`: a run in which a second call is admitted and the result of a
  call from before the circuit opened closes it.
-/

namespace Melis.CircuitBreaker.HalfOpen

open Lib

/-! ## Concurrent calls -/

/-- What calls do: `call` asks for a provider, or delivers its result. -/
inductive Event where
  | ask (call : ℕ) (provider : String) (now : Instant)
  | result (call : ℕ) (result : CallResult) (now : Instant)
deriving DecidableEq

/-- The breaker, the admitted calls that have not delivered their result, and
    the history variable `probe`: the call whose admission last made the
    provider half-open. -/
structure Calls where
  states : States
  inFlight : ℕ → Option String
  probe : String → Option ℕ

/-- No call yet. -/
def Calls.new : Calls where
  states := .new
  inFlight _ := none
  probe _ := none

/-- `p` is half-open. -/
def IsHalfOpen (states : States) (p : String) : Prop :=
  (states p).map (·.state) = some .halfOpen

instance (states : States) (p : String) : Decidable (IsHalfOpen states p) :=
  inferInstanceAs (Decidable (_ = _))

/-- The provider is half-open. -/
abbrev Calls.halfOpen (s : Calls) (p : String) : Prop := IsHalfOpen s.states p

/-- `call` asks `is_available` for `p`. -/
def Calls.ask (config : CircuitBreakerConfig) (s : Calls) (call : ℕ) (p : String)
    (now : Instant) : Calls :=
  let answer := isAvailable config s.states p now
  { states := answer.2
    inFlight := if answer.1 then Function.update s.inFlight call (some p) else s.inFlight
    probe :=
      if IsHalfOpen answer.2 p ∧ ¬ s.halfOpen p then Function.update s.probe p (some call)
      else s.probe }

/-- `call`, admitted for `p`, delivers its result. -/
def Calls.deliver (config : CircuitBreakerConfig) (s : Calls) (call : ℕ) (p : String)
    (result : CallResult) (now : Instant) : Calls :=
  { s with
    states := recordResult config s.states p result now
    inFlight := Function.update s.inFlight call none }

/-- The breaker under concurrent calls. A call that is not in flight may ask; a
    call in flight may deliver its result. -/
def system (config : CircuitBreakerConfig) : System Calls Event where
  enabled s
    | .ask call _ _ => s.inFlight call = none
    | .result call _ _ => s.inFlight call ≠ none
  step s
    | .ask call p now => s.ask config call p now
    | .result call r now =>
      match s.inFlight call with
      | some p => s.deliver config call p r now
      | none => s

instance (config : CircuitBreakerConfig) (s : Calls) :
    (e : Event) → Decidable ((system config).enabled s e)
  | .ask call _ _ => inferInstanceAs (Decidable (s.inFlight call = none))
  | .result call _ _ => inferInstanceAs (Decidable (s.inFlight call ≠ none))

/-- The step admits `call` to `p`. -/
def Admits (config : CircuitBreakerConfig) (call : ℕ) (p : String) (x : Step Calls Event) : Prop :=
  ∃ now, x.event = .ask call p now ∧ (isAvailable config x.pre.states p now).1 = true

/-- The run's steps from the one that makes `p` half-open to any later one up to
    which `p` has stayed half-open: `enter`, then `during`. -/
structure Segment (p : String) (tr : List (Step Calls Event)) (enter : Step Calls Event)
    (during : List (Step Calls Event)) : Prop where
  within : ∃ before rest, tr = before ++ enter :: during ++ rest
  enters : ¬ enter.pre.halfOpen p ∧ enter.post.halfOpen p
  stays : ∀ x ∈ during, x.pre.halfOpen p

/-- The half-open protocol for `p`: from the step that makes it half-open until
    it next leaves `HalfOpen`, no two steps admit a call to `p`, and a step that
    leaves `HalfOpen` delivers the result of a call admitted meanwhile. -/
structure Protocol (config : CircuitBreakerConfig) (p : String)
    (tr : List (Step Calls Event)) : Prop where
  single : ∀ enter during, Segment p tr enter during →
    (enter :: during).Pairwise fun x y => ∀ c d, Admits config c p x → ¬ Admits config d p y
  leaves : ∀ enter during x, Segment p tr enter during → x ∈ during → ¬ x.post.halfOpen p →
    ∃ call r now, x.event = .result call r now ∧ ∃ y ∈ enter :: during, Admits config call p y

/-- While `p` is half-open, the step is neither a request for `p` nor the result
    of a call to `p` other than the probe. -/
def ProbeOnly (p : String) (x : Step Calls Event) : Prop :=
  x.pre.halfOpen p → match x.event with
    | .ask _ q _ => q ≠ p
    | .result call _ _ => x.pre.inFlight call = some p → x.pre.probe p = some call

/-! ## What a step does to one provider -/

section Effect

variable {config : CircuitBreakerConfig} {s : Calls} {p : String}

theorem entry_of_halfOpen (config : CircuitBreakerConfig) (h : s.halfOpen p) :
    (entry config s.states p).state = .halfOpen := by
  unfold Calls.halfOpen IsHalfOpen at h
  unfold entry
  cases hp : s.states p with
  | none => rw [hp] at h; cases h
  | some ps => rw [hp] at h; simpa using h

theorem halfOpen_of_entry (h : (entry config s.states p).state = .halfOpen) : s.halfOpen p := by
  unfold entry at h
  unfold Calls.halfOpen IsHalfOpen
  cases hp : s.states p with
  | none => rw [hp] at h; cases h
  | some ps => rw [hp] at h; exact congrArg some h

/-- What a step of a run can do to `p`. -/
inductive Effect (config : CircuitBreakerConfig) (p : String) (x : Step Calls Event) : Prop
  | other (hask : ∀ call now, x.event ≠ .ask call p now)
      (hresult : ∀ call r now, x.event = .result call r now → x.pre.inFlight call ≠ some p)
      (hhalf : x.post.halfOpen p ↔ x.pre.halfOpen p) (hprobe : x.post.probe p = x.pre.probe p)
  | asked (call : ℕ) (now : Instant) (he : x.event = .ask call p now)
      (hhalf : x.pre.halfOpen p →
        Admits config call p x ∧ x.post.halfOpen p ∧ x.post.probe p = x.pre.probe p)
      (hnew : ¬ x.pre.halfOpen p → x.post.halfOpen p →
        Admits config call p x ∧ x.post.probe p = some call)
  | delivered (call : ℕ) (r : CallResult) (now : Instant) (he : x.event = .result call r now)
      (hflight : x.pre.inFlight call = some p) (hhalf : ¬ x.post.halfOpen p)

/-- A request for another provider. -/
theorem ask_other (config : CircuitBreakerConfig) (s : Calls) (call : ℕ) {q : String}
    (h : p ≠ q) (now : Instant) :
    ((s.ask config call q now).halfOpen p ↔ s.halfOpen p) ∧
      (s.ask config call q now).probe p = s.probe p := by
  constructor
  · simp [Calls.halfOpen, IsHalfOpen, Calls.ask, isAvailable_other config s.states h now]
  · simp only [Calls.ask]
    split_ifs <;> simp [Function.update_of_ne h]

/-- A provider becomes half-open through its probe. -/
theorem ask_probe (call : ℕ) (now : Instant) :
    (s.ask config call p now).probe p =
      if (s.ask config call p now).halfOpen p ∧ ¬ s.halfOpen p then some call else s.probe p := by
  simp only [Calls.ask]
  split_ifs <;> simp

/-- A half-open provider admits the call and stays half-open. -/
theorem ask_of_halfOpen (config : CircuitBreakerConfig) (h : s.halfOpen p) (call : ℕ)
    (now : Instant) :
    (isAvailable config s.states p now).1 = true ∧ (s.ask config call p now).halfOpen p := by
  have he := entry_of_halfOpen config h
  constructor
  · refine ProviderState.isAvailable_eq_true_iff.mpr fun openUntil ttl ho => ?_
    rw [he] at ho
    cases ho
  · simp [Calls.halfOpen, IsHalfOpen, Calls.ask, ProviderState.isAvailable, he]

/-- A provider becomes half-open by admitting a call. -/
theorem isAvailable_of_ask_halfOpen (h : ¬ s.halfOpen p) {call : ℕ} {now : Instant}
    (hpost : (s.ask config call p now).halfOpen p) :
    (isAvailable config s.states p now).1 = true := by
  have hstate : ((entry config s.states p).isAvailable now).2.state = .halfOpen := by
    simpa [Calls.halfOpen, IsHalfOpen, Calls.ask] using hpost
  rcases (entry config s.states p).isAvailable_cases now with hsame | ⟨_, _, -, -, ha⟩
  · rw [hsame] at hstate
    exact absurd (halfOpen_of_entry hstate) h
  · simp [isAvailable, ha]

theorem effect {x : Step Calls Event} (henabled : (system config).enabled x.pre x.event)
    (hpost : x.post = (system config).step x.pre x.event) : Effect config p x := by
  obtain ⟨pre, event, post⟩ := x
  obtain rfl : post = (system config).step pre event := hpost
  cases event with
  | ask call q now =>
    by_cases hq : p = q
    · subst hq
      refine .asked call now rfl (fun h => ?_) fun h hp => ?_
      · obtain ⟨hcall, hhalf⟩ := ask_of_halfOpen config h call now
        refine ⟨⟨now, rfl, hcall⟩, hhalf, ?_⟩
        exact (ask_probe call now).trans (if_neg fun hc => hc.2 h)
      · refine ⟨⟨now, rfl, isAvailable_of_ask_halfOpen h hp⟩, ?_⟩
        exact (ask_probe call now).trans (if_pos ⟨hp, h⟩)
    · obtain ⟨hhalf, hprobe⟩ := ask_other config pre call hq now
      refine .other (fun c t he => hq ?_) (fun c r t he => by cases he) hhalf hprobe
      cases he
      rfl
  | result call r now =>
    have hne : pre.inFlight call ≠ none := henabled
    obtain ⟨q, hflight⟩ := Option.ne_none_iff_exists'.mp hne
    have hstep : (system config).step pre (.result call r now) =
        pre.deliver config call q r now := by simp only [system, hflight]
    rw [hstep]
    by_cases hq : p = q
    · subst hq
      refine .delivered call r now rfl hflight ?_
      simp [Calls.halfOpen, IsHalfOpen, Calls.deliver, ProviderState.recordResult_state_ne_halfOpen]
    · refine .other (fun c t he => by cases he) (fun c r' t he => ?_) ?_ rfl
      · cases he
        exact fun h => hq (Option.some.inj (h.symm.trans hflight))
      · simp [Calls.halfOpen, IsHalfOpen, Calls.deliver, recordResult_other _ _ hq]

end Effect

/-! ## Runs -/

section Runs

variable {config : CircuitBreakerConfig} {tr : List (Step Calls Event)} {s : Calls} {p : String}

theorem not_halfOpen_new (p : String) : ¬ Calls.new.halfOpen p := by
  simp [Calls.halfOpen, IsHalfOpen, Calls.new, States.new]

/-- The step that makes `p` half-open admits a call, the new probe. -/
theorem entry_cases {x : Step Calls Event} (h : Effect config p x)
    (henters : ¬ x.pre.halfOpen p ∧ x.post.halfOpen p) :
    ∃ call, Admits config call p x ∧ x.post.probe p = some call := by
  obtain ⟨hpre, hpost⟩ := henters
  cases h with
  | other _ _ hhalf _ => exact absurd (hhalf.mp hpost) hpre
  | asked call _ _ _ hnew => exact ⟨call, hnew hpre hpost⟩
  | delivered _ _ _ _ _ hhalf => exact absurd hpost hhalf

/-- While `p` stays half-open, the call whose admission made it so is its
    probe. -/
theorem probe_eq_of_segment {before during : List (Step Calls Event)} {enter : Step Calls Event}
    (h : Run (system config) .new (before ++ enter :: during) s)
    (henters : ¬ enter.pre.halfOpen p ∧ enter.post.halfOpen p)
    (hstays : ∀ x ∈ during, x.pre.halfOpen p) (hs : s.halfOpen p) :
    ∃ call, Admits config call p enter ∧ s.probe p = some call := by
  induction during using List.reverseRecOn generalizing s with
  | nil =>
    obtain ⟨-, he, hpost, rfl⟩ := h.of_snoc
    exact entry_cases (effect he hpost) henters
  | append_singleton during y ih =>
    rw [← List.cons_append, ← List.append_assoc] at h
    obtain ⟨hrun, he, hpost, rfl⟩ := h.of_snoc
    have hy : y.pre.halfOpen p := hstays y (by simp)
    obtain ⟨call, hcall, hprobe⟩ := ih hrun (fun x hx => hstays x (by simp [hx])) hy
    refine ⟨call, hcall, ?_⟩
    cases effect (p := p) he hpost with
    | other _ _ _ hsame => rw [hsame, hprobe]
    | asked _ _ _ hhalf _ => rw [(hhalf hy).2.2, hprobe]
    | delivered _ _ _ _ _ hhalf => exact absurd hs hhalf

theorem Admits.unique {c d : ℕ} {x : Step Calls Event} (h : Admits config c p x)
    (h' : Admits config d p x) : c = d := by
  obtain ⟨_, he, -⟩ := h
  obtain ⟨_, he', -⟩ := h'
  rw [he] at he'
  cases he'
  rfl

/-- In a run that follows the protocol, every step meets the condition. -/
theorem probeOnly_of_protocol (h : Run (system config) .new tr s)
    (hprot : ∀ p, Protocol config p tr) {x : Step Calls Event} (hx : x ∈ tr) (p : String) :
    ProbeOnly p x := by
  intro hhalf
  obtain ⟨tr₁, tr₂, rfl⟩ := List.append_of_mem hx
  obtain ⟨hrun, he, hpost⟩ := h.split
  obtain ⟨before, enter, during, rfl, hpre, hent, hduring⟩ :=
    hrun.exists_entry (P := fun s => s.halfOpen p) (not_halfOpen_new p) hhalf
  have hseg : Segment p (before ++ enter :: during ++ x :: tr₂) enter (during ++ [x]) := by
    refine ⟨⟨before, tr₂, by simp⟩, ⟨hpre, hent⟩, fun y hy => ?_⟩
    rcases List.mem_append.mp hy with hy | hy
    · exact (hduring y hy).1
    · rwa [List.mem_singleton.mp hy]
  obtain ⟨call, hcall, hprobe⟩ :=
    probe_eq_of_segment hrun ⟨hpre, hent⟩ (fun y hy => (hduring y hy).1) hhalf
  -- after the entry no step admits a call
  have hsingle := (List.pairwise_cons.mp ((hprot p).single enter _ hseg)).1
  cases effect (p := p) he hpost with
  | other hask hresult _ _ =>
    cases hev : x.event with
    | ask c q now => exact fun hq => hask c now (hq ▸ hev)
    | result c r now => exact fun hf => absurd hf (hresult c r now hev)
  | asked c now hev hin _ =>
    exact absurd (hin hhalf).1 (hsingle x (by simp) call c hcall)
  | delivered c r now hev _ hout =>
    obtain ⟨c', r', now', hev', y, hy, hycall⟩ :=
      (hprot p).leaves enter _ x hseg (by simp) hout
    obtain rfl : c' = c := by rw [hev] at hev'; cases hev'; rfl
    have hye : y = enter := by
      rcases List.mem_cons.mp hy with rfl | hy
      · rfl
      · exact absurd hycall (hsingle y hy call c' hcall)
    rw [hev]
    exact fun _ => by rw [hprobe, hcall.unique (hye ▸ hycall)]

/-- A run whose steps all meet the condition follows the protocol. -/
theorem protocol_of_probeOnly (h : Run (system config) .new tr s)
    (hcond : ∀ x ∈ tr, ProbeOnly p x) : Protocol config p tr := by
  have hmem : ∀ {enter during}, Segment p tr enter during → ∀ x ∈ during, x ∈ tr := by
    rintro enter during ⟨⟨before, rest, rfl⟩, -, -⟩ x hx
    simp [hx]
  have hnone : ∀ {enter during}, Segment p tr enter during → ∀ x ∈ during, ∀ c,
      ¬ Admits config c p x := by
    rintro enter during hseg x hx c ⟨now, hev, -⟩
    have := hcond x (hmem hseg x hx) (hseg.stays x hx)
    rw [hev] at this
    exact this rfl
  constructor
  · intro enter during hseg
    refine List.pairwise_cons.mpr ⟨fun y hy _ d _ => hnone hseg y hy d, ?_⟩
    exact List.Pairwise.imp_of_mem (fun _ hy _ _ d _ => hnone hseg _ hy d)
      (List.pairwise_of_forall (R := fun _ _ => True) fun _ _ => trivial)
  · intro enter during x hseg hx hout
    have hhalf := hseg.stays x hx
    have hprobeOnly := hcond x (hmem hseg x hx) hhalf
    obtain ⟨⟨before, rest, htr⟩, henters, hstays⟩ := hseg
    obtain ⟨d₁, d₂, rfl⟩ := List.append_of_mem hx
    rw [htr, show before ++ enter :: (d₁ ++ x :: d₂) ++ rest =
      (before ++ enter :: d₁) ++ x :: (d₂ ++ rest) by simp] at h
    obtain ⟨hrun, he, hpost⟩ := h.split
    obtain ⟨call, hcall, hprobe⟩ := probe_eq_of_segment hrun henters
      (fun y hy => hstays y (List.mem_append_left _ hy)) hhalf
    cases effect (p := p) he hpost with
    | other _ _ hsame _ => exact absurd (hsame.mpr hhalf) hout
    | asked _ _ _ hin _ => exact absurd (hin hhalf).2.1 hout
    | delivered c r now hev hflight _ =>
      rw [hev] at hprobeOnly
      have := hprobeOnly hflight
      rw [hprobe] at this
      obtain rfl := Option.some.inj this
      exact ⟨call, r, now, hev, enter, List.mem_cons_self, hcall⟩

/-- **The half-open protocol.** A run of concurrent calls follows the protocol
    for every provider if and only if, at every step, a provider that is
    half-open is neither asked for nor given the result of a call other than its
    probe. -/
theorem protocol_iff (h : Run (system config) .new tr s) :
    (∀ p, Protocol config p tr) ↔ ∀ x ∈ tr, ∀ p, ProbeOnly p x :=
  ⟨fun hprot _ hx p => probeOnly_of_protocol h hprot hx p,
    fun hcond _ => protocol_of_probeOnly h fun x hx => hcond x hx _⟩

end Runs

/-! ## Examples -/

/-- The end of the default `open_ttl_secs`. -/
def ttlEnd : Instant := Duration.fromSecs CircuitBreakerConfig.default.openTtlSecs

/-- The default breaker. -/
abbrev breaker : System Calls Event := system .default

/-- Two calls are admitted, the first is rate limited and the circuit opens. -/
def opening : List Event := [.ask 0 "a" 0, .ask 1 "a" 0, .result 0 .rateLimited 0]

/-- Two calls are admitted once the circuit may be tried again, and the second
    call of `opening` succeeds. -/
def reopening : List Event :=
  opening ++ [.ask 2 "a" ttlEnd, .ask 3 "a" ttlEnd, .result 1 .success ttlEnd]

/-- A second call is admitted while the probe is out, and the result of a call
    from before the circuit opened closes it. -/
theorem second_probe :
    Run breaker .new (breaker.trace .new reopening) (reopening.foldl breaker.step .new) ∧
      ((reopening.foldl breaker.step .new).states "a").map (·.state) = some .closed ∧
      (reopening.foldl breaker.step .new).inFlight 2 = some "a" ∧
      ¬ Protocol .default "a" (breaker.trace .new reopening) := by
  refine ⟨run_trace breaker .new reopening (by decide), by decide, by decide, fun h => ?_⟩
  let atTtlEnd := opening.foldl breaker.step .new
  let enter : Step Calls Event :=
    ⟨atTtlEnd, .ask 2 "a" ttlEnd, breaker.step atTtlEnd (.ask 2 "a" ttlEnd)⟩
  let during := breaker.trace enter.post [.ask 3 "a" ttlEnd, .result 1 .success ttlEnd]
  have hseg : Segment "a" (breaker.trace .new reopening) enter during :=
    ⟨⟨breaker.trace .new opening, [], rfl⟩, by decide, by decide⟩
  have hpair := (List.pairwise_cons.mp (h.single enter during hseg)).1
  exact hpair _ List.mem_cons_self 2 3 ⟨ttlEnd, rfl, by decide⟩ ⟨ttlEnd, rfl, by decide⟩

/-- The circuit opens, its probe succeeds, and nothing else happens. -/
def recovery : List Event :=
  [.ask 0 "a" 0, .result 0 .rateLimited 0, .ask 1 "a" ttlEnd, .result 1 .success ttlEnd]

theorem recovery_provider {x : Step Calls Event} (hx : x ∈ breaker.trace .new recovery)
    {p : String} (h : x.pre.halfOpen p) : p = "a" := by
  by_contra hp
  have hnone : x.pre.states p = none := by
    simp only [recovery, System.trace, List.mem_cons, List.not_mem_nil, or_false] at hx
    have h0 : Calls.new.states p = none := rfl
    have h1 := (isAvailable_other .default _ hp 0).trans h0
    have h2 := (recordResult_other .default _ hp .rateLimited 0).trans h1
    have h3 := (isAvailable_other .default _ hp ttlEnd).trans h2
    rcases hx with rfl | rfl | rfl | rfl
    · exact h0
    · exact h1
    · exact h2
    · exact h3
  simp [Calls.halfOpen, IsHalfOpen, hnone] at h

theorem protocol_recovery :
    Protocol .default "a" (breaker.trace .new recovery) := by
  refine (protocol_iff (run_trace breaker .new recovery (by decide))).mpr (fun x hx q h => ?_) "a"
  obtain rfl := recovery_provider hx h
  simp only [recovery, System.trace, List.mem_cons, List.not_mem_nil, or_false] at hx
  rcases hx with rfl | rfl | rfl | rfl
  · exact absurd h (by decide)
  · exact absurd h (by decide)
  · exact absurd h (by decide)
  · exact fun _ => rfl

end Melis.CircuitBreaker.HalfOpen
