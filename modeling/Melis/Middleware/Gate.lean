import Melis.Lib.Run
import Melis.Middleware.Model

/-!
# The layers in front of the handlers (`router.rs`)

`build_router` puts authentication and rate limiting before every route when
authentication is on. All clients share one rate limiter; what one of them is
answered does not depend on the others.

* `gate_bucket`: a request touches the bucket of its own client only.
* `gate_isolation`: the answers to a client, alone and among all requests.
-/

namespace Melis.Middleware

open RateLimiter

/-- A request: its `Authorization` header, and the clock readings of its
    `try_acquire`. -/
structure Knock where
  authHeader : Option String
  now : Instant
  later : Instant
deriving DecidableEq

/-- The client that a request is counted for, if there is one. -/
def clientOf (c : LoadedConfig) (k : Knock) : Option String :=
  if c.auth.enabled then (authMiddleware c.auth k.authHeader).toOption.map (·.clientId) else none

/-- The layers (`build_router`, `router.rs` lines 95–111): the answer if there is one, or what the
    handler's response is given, and the buckets after it. -/
def gate (c : LoadedConfig) (buckets : Buckets) (k : Knock) :
    Except GatewayError (Option ℕ) × Buckets :=
  if c.auth.enabled then
    match authMiddleware c.auth k.authHeader with
    | .error e => (.error e, buckets)
    | .ok identity =>
      let defaults : RateLimitConfig := ⟨c.rateLimit.burstCapacity, c.rateLimit.refillRate⟩
      let (answer, buckets) := tryAcquire buckets identity.clientId
        (effectiveRateLimit defaults identity) k.now k.later
      (rateLimitMiddleware answer, buckets)
  else (.ok none, buckets)

/-- Requests at the gate, one after another. -/
def knocks (c : LoadedConfig) : Lib.System Limiter Knock where
  enabled s k := s.clock ≤ k.now ∧ k.now ≤ k.later
  step s k := { buckets := (gate c s.buckets k).2, clock := k.later }

instance (c : LoadedConfig) (s : Limiter) (k : Knock) : Decidable ((knocks c).enabled s k) :=
  inferInstanceAs (Decidable (s.clock ≤ k.now ∧ k.now ≤ k.later))

section Gate

variable {c : LoadedConfig} {buckets buckets' : Buckets} {k : Knock} {client : String}

/-- A request touches the bucket of its own client only. -/
theorem gate_bucket (h : clientOf c k ≠ some client) :
    (gate c buckets k).2 client = buckets client := by
  unfold clientOf at h
  unfold gate
  split_ifs at h ⊢
  · cases hauth : authMiddleware c.auth k.authHeader with
    | error e => rfl
    | ok identity =>
      rw [hauth] at h
      exact tryAcquire_other fun heq => h (congrArg some heq.symm)
  · rfl

/-- What a call answers, and the bucket afterwards, depend on the bucket before. -/
theorem tryAcquire_congr (h : buckets client = buckets' client) (config : RateLimitConfig)
    (now later : Instant) :
    (tryAcquire buckets client config now later).1 =
        (tryAcquire buckets' client config now later).1 ∧
      (tryAcquire buckets client config now later).2 client =
        (tryAcquire buckets' client config now later).2 client := by
  have hentry : buckets.entry config client now = buckets'.entry config client now := by
    unfold Buckets.entry
    rw [h]
  unfold tryAcquire
  rw [hentry]
  dsimp only
  split_ifs <;> exact ⟨rfl, by simp only [Function.update_self]⟩

/-- The answer to a client, and its bucket afterwards, depend on its own bucket. -/
theorem gate_congr (h : clientOf c k = some client) (hsame : buckets client = buckets' client) :
    (gate c buckets k).1 = (gate c buckets' k).1 ∧
      (gate c buckets k).2 client = (gate c buckets' k).2 client := by
  unfold clientOf at h
  unfold gate
  split_ifs at h ⊢
  cases hauth : authMiddleware c.auth k.authHeader with
  | error e =>
    rw [hauth] at h
    cases h
  | ok identity =>
    rw [hauth] at h
    obtain rfl := Option.some.inj h
    obtain ⟨hanswer, hbucket⟩ := tryAcquire_congr hsame _ k.now k.later
    exact ⟨congrArg rateLimitMiddleware hanswer, hbucket⟩

end Gate

/-- The two states look the same to the client, the second one with an earlier
    clock. -/
def LooksSame (client : String) (s t : Limiter) : Prop :=
  s.buckets client = t.buckets client ∧ t.clock ≤ s.clock

section Steps

variable {c : LoadedConfig} {s t : Limiter} {k : Knock} {client : String}

theorem LooksSame.other (h : LooksSame client s t) (henabled : (knocks c).enabled s k)
    (hk : clientOf c k ≠ some client) : LooksSame client ((knocks c).step s k) t :=
  ⟨(gate_bucket hk).trans h.1, h.2.trans (henabled.1.trans henabled.2)⟩

theorem LooksSame.own (h : LooksSame client s t) (henabled : (knocks c).enabled s k)
    (hk : clientOf c k = some client) : (knocks c).enabled t k ∧
      (gate c s.buckets k).1 = (gate c t.buckets k).1 ∧
      LooksSame client ((knocks c).step s k) ((knocks c).step t k) := by
  obtain ⟨hanswer, hbucket⟩ := gate_congr hk h.1
  exact ⟨⟨h.2.trans henabled.1, henabled.2⟩, hanswer, hbucket, le_rfl⟩

end Steps

/-- **Isolation.** In every run of requests by any clients, with valid keys or
    without, the answers to one client are those it would get if it were alone with
    the gateway, with the same requests at the same times; and so is its bucket in
    the end. -/
theorem gate_isolation {c : LoadedConfig} {t₀ : Instant}
    {tr : List (Lib.Step Limiter Knock)} {s : Limiter}
    (hrun : Lib.Run (knocks c) (.new t₀) tr s) (client : String) :
    ∃ alone t, Lib.Run (knocks c) (.new t₀) alone t ∧
      alone.map (·.event) =
        (tr.filter fun x => clientOf c x.event = some client).map (·.event) ∧
      alone.map (fun x => (gate c x.pre.buckets x.event).1) =
        (tr.filter fun x => clientOf c x.event = some client).map
          (fun x => (gate c x.pre.buckets x.event).1) ∧
      t.buckets client = s.buckets client := by
  obtain ⟨alone, t, hrun', hevents, houts, hbuckets, -⟩ := hrun.purge
    (fun k => clientOf c k = some client) (fun s k => (gate c s.buckets k).1)
    (LooksSame client) ⟨rfl, le_rfl⟩
    (fun _ _ _ henabled hk h => h.other henabled (of_decide_eq_false hk))
    (fun _ _ _ henabled hk h => h.own henabled (of_decide_eq_true hk))
  exact ⟨alone, t, hrun', hevents, houts, hbuckets.symm⟩

/-! ## A busy neighbour -/

/-- Two clients with one token each. -/
def twoClients : LoadedConfig where
  redis := { clusterUrls := ["redis://localhost:6379"] }
  rateLimit := { burstCapacity := 1, refillRate := .finite 1 }
  auth :=
    { apiKeys := [⟨"sk-a", "alice", [], none⟩, ⟨"sk-b", "bob", [], none⟩]
      enabled := true }

/-- Bob asks twice, then Alice, then somebody with an unknown key. -/
def busyHour : List Knock :=
  [⟨some "Bearer sk-b", 0, 0⟩, ⟨some "Bearer sk-b", 5, 6⟩, ⟨some "Bearer sk-a", 7, 8⟩,
    ⟨some "Bearer sk-c", 9, 9⟩]

/-- Alice is let through when Bob is already refused. -/
theorem gate_isolation_busyHour :
    let tr := (knocks twoClients).trace (.new 0) busyHour
    (tr.map fun x => (gate twoClients x.pre.buckets x.event).1) =
        [.ok (some 0), .error (.rateLimited 1), .ok (some 0),
          .error (.unauthorized "Invalid API key")] ∧
      ∃ alone t, Lib.Run (knocks twoClients) (.new 0) alone t ∧
        alone.map (·.event) = [⟨some "Bearer sk-a", 7, 8⟩] ∧
        alone.map (fun x => (gate twoClients x.pre.buckets x.event).1) = [.ok (some 0)] := by
  intro tr
  have hrun : Lib.Run (knocks twoClients) (.new 0) tr
      (busyHour.foldl (knocks twoClients).step (.new 0)) := by
    refine Lib.run_trace _ _ _ ?_
    unfold busyHour
    decide +kernel
  obtain ⟨alone, t, hrun', hevents, houts, -⟩ := gate_isolation hrun "alice"
  refine ⟨by decide +kernel, alone, t, hrun', hevents.trans ?_, houts.trans ?_⟩
  · decide +kernel
  · decide +kernel

end Melis.Middleware
