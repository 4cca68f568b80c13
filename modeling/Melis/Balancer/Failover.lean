import Melis.Balancer.Model

/-!
# The generic failover loop (`balancer.rs`)

`execute_with_failover` for any request function. The function is asynchronous and
others use the balancer while it runs: what it answers may depend on the calls before,
and so may what the others make of the counter. The loop records its calls in `calls`,
which the code does not.

* `selectWithFailover_cases`: what a selection can do.
* `Ending`: the ways in which the loop ends.
* `failoverLoop_ending`: from any state it ends in one of them.
* `executeWithFailover_spec`: what is called, and what is returned.
-/

namespace Melis.Balancer

variable {T : Type*}

/-- `MAX_RETRIES` (line 20). -/
def maxRetries : ℕ := 2

/-- `RequestOutcome` (lines 140–147). -/
inductive RequestOutcome (T : Type*) where
  | success (response : T)
  | retryable (reason : String)
  | nonRetryable (err : GatewayError)

/-- `select_with_failover` (lines 155–173): the selection and the counter after it. -/
def selectWithFailover (counter : ℕ) (providers : List WeightedProvider)
    (exclude : List String) : Except GatewayError WeightedProvider × ℕ :=
  let available := providers.filter fun p => !exclude.contains p.name
  if available.isEmpty then
    (.error (.serviceUnavailable "All providers exhausted after failover attempts"), counter)
  else selectProvider counter available

/-- A call of the request function, with its outcome. -/
structure Call (T : Type*) where
  provider : WeightedProvider
  outcome : RequestOutcome T

/-- The names called. -/
def names (calls : List (Call T)) : List String := calls.map (·.provider.name)

/-- What surrounds the loop: the answer of the request function, and what other users
    of the balancer have made of its counter, given the calls so far. -/
structure Requests (T : Type*) where
  request : List (Call T) → WeightedProvider → RequestOutcome T
  counter : List (Call T) → ℕ → ℕ

/-- The variables of the loop (lines 206–207), the counter and the calls so far. -/
structure FailoverState (T : Type*) where
  counter : ℕ
  excluded : List String
  lastError : Option String
  calls : List (Call T)

/-- The loop (lines 210–231) with so many attempts left: what is returned, and the
    calls made. -/
def failoverLoop (R : Requests T) (providers : List WeightedProvider) :
    ℕ → FailoverState T → Except GatewayError T × List (Call T)
  | 0, s =>
    let lastError := s.lastError.getD "unknown"
    (.error (.serviceUnavailable (s!"All providers exhausted after {maxRetries} " ++
      s!"failover attempts. Last error: {lastError}")), s.calls)
  | attempts + 1, s =>
    match selectWithFailover (R.counter s.calls s.counter) providers s.excluded with
    | (.error err, _) => (.error err, s.calls)
    | (.ok provider, counter) =>
      let outcome := R.request s.calls provider
      let calls := s.calls ++ [⟨provider, outcome⟩]
      match outcome with
      | .success response => (.ok response, calls)
      | .retryable reason =>
        failoverLoop R providers attempts
          { counter := counter
            excluded := s.excluded ++ [provider.name]
            lastError := some reason
            calls := calls }
      | .nonRetryable err => (.error err, calls)

/-- Before the first attempt. -/
def FailoverState.start (counter : ℕ) : FailoverState T where
  counter := counter
  excluded := []
  lastError := none
  calls := []

/-- `execute_with_failover` (lines 198–232). -/
def executeWithFailover (R : Requests T) (providers : List WeightedProvider) (counter : ℕ) :
    Except GatewayError T × List (Call T) :=
  failoverLoop R providers (maxRetries + 1) (.start counter)

/-! ## Selecting among the rest -/

/-- A selection takes an entry whose name is not excluded, or there is no such entry
    with a weight. -/
theorem selectWithFailover_cases (counter : ℕ) (providers : List WeightedProvider)
    (exclude : List String) :
    (∃ p ∈ providers, p.name ∉ exclude ∧
        (selectWithFailover counter providers exclude).1 = .ok p) ∨
      (∃ text, (selectWithFailover counter providers exclude).1 =
        .error (.serviceUnavailable text)) ∧
      ∀ p ∈ providers, 0 < p.weight → p.name ∈ exclude := by
  have hmem : ∀ p, p ∈ (providers.filter fun p => !exclude.contains p.name) ↔
      p ∈ providers ∧ p.name ∉ exclude := by
    intro p
    rw [List.mem_filter, Bool.not_eq_true', ← Bool.not_eq_true, List.contains_iff_mem]
  unfold selectWithFailover
  dsimp only
  split_ifs with hempty
  · refine .inr ⟨⟨_, rfl⟩, fun p hp _ => ?_⟩
    by_contra hexcluded
    have := (hmem p).mpr ⟨hp, hexcluded⟩
    rw [List.isEmpty_iff.mp hempty] at this
    cases this
  · rcases selectProvider_cases counter (providers.filter fun p => !exclude.contains p.name)
      with ⟨p, hp, hok⟩ | ⟨herror, hnone⟩
    · exact .inl ⟨p, ((hmem p).mp hp).1, ((hmem p).mp hp).2, hok⟩
    · refine .inr ⟨⟨_, herror⟩, fun p hp hweight => ?_⟩
      by_contra hexcluded
      have hp := (hmem p).mpr ⟨hp, hexcluded⟩
      rcases hnone with hnil | hzero
      · exact hempty (List.isEmpty_iff.mpr hnil)
      · exact totalWeight_ne_zero hp hweight hzero

/-! ## The calls -/

/-- Every call failed in a way that may be retried. -/
def AllRetryable (calls : List (Call T)) : Prop :=
  ∀ call ∈ calls, ∃ reason, call.outcome = .retryable reason

/-- What the calls have in common: they are on entries of the list with distinct names,
    and their outcomes are the request function's. -/
structure CallsOf (R : Requests T) (providers : List WeightedProvider) (calls : List (Call T)) :
    Prop where
  mem : ∀ call ∈ calls, call.provider ∈ providers
  distinct : (names calls).Nodup
  outcome : ∀ before call after, calls = before ++ call :: after →
    call.outcome = R.request before call.provider

theorem CallsOf.nil (R : Requests T) (providers : List WeightedProvider) :
    CallsOf R providers [] where
  mem call hcall := by cases hcall
  distinct := List.nodup_nil
  outcome before call after h := by simp at h

/-- One call more, on another name. -/
theorem CallsOf.concat {R : Requests T} {providers : List WeightedProvider}
    {calls : List (Call T)} {p : WeightedProvider} (h : CallsOf R providers calls)
    (hp : p ∈ providers) (hname : p.name ∉ names calls) :
    CallsOf R providers (calls ++ [⟨p, R.request calls p⟩]) where
  mem call hcall := by
    rcases List.mem_append.mp hcall with hcall | hcall
    · exact h.mem call hcall
    · rw [List.mem_singleton.mp hcall]
      exact hp
  distinct := by
    rw [names, List.map_append, List.map_singleton]
    exact List.nodup_append.mpr ⟨h.distinct, List.nodup_singleton _, fun x hx y hy hxy =>
      hname (List.mem_singleton.mp hy ▸ hxy ▸ hx)⟩
  outcome before call after he := by
    rcases List.eq_nil_or_concat' after with rfl | ⟨after, last, rfl⟩
    · obtain ⟨rfl, hlast⟩ := List.append_inj' he rfl
      obtain rfl := List.singleton_inj.mp hlast
      rfl
    · rw [← List.cons_append, ← List.append_assoc] at he
      obtain ⟨rfl, -⟩ := List.append_inj' he rfl
      exact h.outcome before call after rfl

theorem AllRetryable.concat {calls : List (Call T)} (h : AllRetryable calls)
    (p : WeightedProvider) (reason : String) :
    AllRetryable (calls ++ [⟨p, .retryable reason⟩]) := by
  intro call hcall
  rcases List.mem_append.mp hcall with hcall | hcall
  · exact h call hcall
  · rw [List.mem_singleton.mp hcall]
    exact ⟨reason, rfl⟩

/-! ## The loop -/

/-- The ways in which the loop ends with a result and its calls: the last call
    succeeds, the last call fails for good, or all calls may be retried and there are
    `limit` of them or no weight is left. -/
inductive Ending (providers : List WeightedProvider) (limit : ℕ) :
    Except GatewayError T → List (Call T) → Prop
  | success (before : List (Call T)) (p : WeightedProvider) (response : T)
      (hretry : AllRetryable before) :
      Ending providers limit (.ok response) (before ++ [⟨p, .success response⟩])
  | nonRetryable (before : List (Call T)) (p : WeightedProvider) (err : GatewayError)
      (hretry : AllRetryable before) :
      Ending providers limit (.error err) (before ++ [⟨p, .nonRetryable err⟩])
  | exhausted (calls : List (Call T)) (text : String) (hretry : AllRetryable calls)
      (hdone : calls.length = limit ∨ ∀ p ∈ providers, 0 < p.weight → p.name ∈ names calls) :
      Ending providers limit (.error (.serviceUnavailable text)) calls

/-- Between two attempts every call may be retried, and its name is excluded. -/
structure FailoverInv (R : Requests T) (providers : List WeightedProvider)
    (s : FailoverState T) : Prop where
  calls : CallsOf R providers s.calls
  retryable : AllRetryable s.calls
  excluded : s.excluded = names s.calls

variable {R : Requests T} {providers : List WeightedProvider}

/-- From a state between two attempts, with `attempts` left of `limit`. -/
theorem failoverLoop_ending {attempts limit : ℕ} {s : FailoverState T}
    (h : FailoverInv R providers s) (hlimit : s.calls.length + attempts = limit) :
    let r := failoverLoop R providers attempts s
    CallsOf R providers r.2 ∧ r.2.length ≤ limit ∧ Ending providers limit r.1 r.2 := by
  induction attempts generalizing s with
  | zero =>
    rw [Nat.add_zero] at hlimit
    exact ⟨h.calls, hlimit.le, .exhausted s.calls _ h.retryable (.inl hlimit)⟩
  | succ attempts ih =>
    rcases selectWithFailover_cases (R.counter s.calls s.counter) providers s.excluded with
      ⟨p, hp, hname, hselect⟩ | ⟨⟨text, hselect⟩, hnone⟩
    · rw [h.excluded] at hname
      have hcalls := h.calls.concat hp hname
      have hlen : (s.calls ++ [Call.mk p (R.request s.calls p)]).length + attempts = limit := by
        rw [List.length_append, List.length_singleton]
        omega
      rw [failoverLoop]
      generalize selectWithFailover (R.counter s.calls s.counter) providers s.excluded =
        selected at hselect
      obtain ⟨selected, counter⟩ := selected
      obtain rfl : selected = .ok p := hselect
      dsimp only
      cases houtcome : R.request s.calls p with
      | success response =>
        rw [houtcome] at hcalls hlen
        exact ⟨hcalls, by dsimp only; omega, .success s.calls p response h.retryable⟩
      | retryable reason =>
        rw [houtcome] at hcalls hlen
        refine ih ⟨hcalls, h.retryable.concat p reason, ?_⟩ hlen
        dsimp only
        rw [h.excluded, names, names, List.map_append, List.map_singleton]
      | nonRetryable err =>
        rw [houtcome] at hcalls hlen
        exact ⟨hcalls, by dsimp only; omega, .nonRetryable s.calls p err h.retryable⟩
    · rw [failoverLoop]
      generalize selectWithFailover (R.counter s.calls s.counter) providers s.excluded =
        selected at hselect
      obtain ⟨selected, counter⟩ := selected
      obtain rfl : selected = .error (.serviceUnavailable text) := hselect
      refine ⟨h.calls, by dsimp only; omega, .exhausted s.calls text h.retryable (.inr ?_)⟩
      exact fun p hp hweight => h.excluded ▸ hnone p hp hweight

theorem failoverInv_start (R : Requests T) (providers : List WeightedProvider) (counter : ℕ) :
    FailoverInv R providers (.start counter) where
  calls := CallsOf.nil R providers
  retryable call hcall := by cases hcall
  excluded := rfl

/-! ## What is returned -/

theorem AllRetryable.outcome {before after : List (Call T)} {call : Call T}
    (h : AllRetryable (before ++ call :: after)) : ∃ reason, call.outcome = .retryable reason :=
  h call (List.mem_append_right before List.mem_cons_self)

/-- A call that may not be retried is the last. -/
theorem AllRetryable.last {before before' after : List (Call T)} {x y : Call T}
    (h : AllRetryable before) (he : before ++ [x] = before' ++ y :: after)
    (hy : ∀ reason, y.outcome ≠ .retryable reason) : before' = before ∧ y = x ∧ after = [] := by
  rcases List.eq_nil_or_concat' after with rfl | ⟨after, last, rfl⟩
  · obtain ⟨rfl, hlast⟩ := List.append_inj' he rfl
    exact ⟨rfl, (List.singleton_inj.mp hlast).symm, rfl⟩
  · rw [← List.cons_append, ← List.append_assoc] at he
    obtain ⟨rfl, -⟩ := List.append_inj' he rfl
    obtain ⟨reason, hreason⟩ := h y (by simp)
    exact absurd hreason (hy reason)

/-- **Failover.** The calls are at most `MAX_RETRIES + 1`, on distinct names of the list.
    A response is returned exactly if the last call succeeds with it and those before may
    be retried. An error that may not be retried is returned as it is, with no further
    call. Otherwise the service is unavailable, and either all attempts were made or every
    name with a weight was called. -/
theorem executeWithFailover_spec (R : Requests T) (providers : List WeightedProvider)
    (counter : ℕ) :
    let (result, calls) := executeWithFailover R providers counter
    CallsOf R providers calls ∧ calls.length ≤ maxRetries + 1 ∧
    (∀ response, result = .ok response ↔
      ∃ before p, calls = before ++ [⟨p, .success response⟩] ∧ AllRetryable before) ∧
    (∀ before p err after, calls = before ++ ⟨p, .nonRetryable err⟩ :: after →
      after = [] ∧ result = .error err) ∧
    ((∀ response, result ≠ .ok response) →
      (∀ call ∈ calls, ∀ err, call.outcome ≠ .nonRetryable err) →
      (∃ text, result = .error (.serviceUnavailable text)) ∧
        (calls.length = maxRetries + 1 ∨
          ∀ p ∈ providers, 0 < p.weight → p.name ∈ names calls)) := by
  obtain ⟨hcalls, hlen, hending⟩ :=
    failoverLoop_ending (failoverInv_start R providers counter) (Nat.zero_add (maxRetries + 1))
  rw [← executeWithFailover] at hcalls hlen hending
  generalize executeWithFailover R providers counter = r at hcalls hlen hending
  obtain ⟨result, calls⟩ := r
  refine ⟨hcalls, hlen, ?_⟩
  dsimp only at hending
  cases hending with
  | success before p response hretry =>
    refine ⟨fun response' => ⟨fun h => ?_, ?_⟩, fun before' p' err after he => ?_, fun hnot => ?_⟩
    · obtain rfl := Except.ok.inj h
      exact ⟨before, p, rfl, hretry⟩
    · rintro ⟨before', p', he, -⟩
      obtain ⟨-, hlast, -⟩ := hretry.last he (fun _ => nofun)
      cases hlast
      rfl
    · obtain ⟨-, hlast, -⟩ := hretry.last he (fun _ => nofun)
      cases hlast
    · exact absurd rfl (hnot response)
  | nonRetryable before p err hretry =>
    refine ⟨fun response => ⟨nofun, ?_⟩, fun before' p' err' after he => ?_, fun _ hnone => ?_⟩
    · rintro ⟨before', p', he, -⟩
      obtain ⟨-, hlast, -⟩ := hretry.last he (fun _ => nofun)
      cases hlast
    · obtain ⟨-, hlast, hafter⟩ := hretry.last he (fun _ => nofun)
      cases hlast
      exact ⟨hafter, rfl⟩
    · exact absurd rfl (hnone _ (List.mem_append_right before (List.mem_singleton_self _)) err)
  | exhausted calls text hretry hdone =>
    refine ⟨fun response => ⟨nofun, ?_⟩, ?_, fun _ _ => ⟨⟨text, rfl⟩, hdone⟩⟩
    · rintro ⟨before, p, rfl, -⟩
      obtain ⟨reason, hreason⟩ := hretry.outcome
      cases hreason
    · rintro before p err after rfl
      obtain ⟨reason, hreason⟩ := hretry.outcome
      cases hreason

end Melis.Balancer
