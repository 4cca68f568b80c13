import Melis.Middleware.Gate
import Melis.Router.OpenCircuit

/-!
# The layers and the handlers together (`router.rs`)

Requests pass authentication and the rate limiter; those let through wait until
their handler starts, and then run with all the others.

* `gate_run`, `inside_run`: a run of the gateway as runs of its two parts.
* `Move.send_budget`: what a request can still send.
* `admission`: what gets through, and how much of it reaches the providers.
-/

namespace Melis.Router

open Client Middleware RateLimiter

variable {Contents : Type*}

/-! ## The whole gateway -/

/-- The rate limiter, the chat requests let through whose handler has not started
    yet, and those whose handler has. -/
structure Front (Contents : Type*) where
  limiter : Limiter
  waiting : List ChatRequest
  requests : Requests Contents

/-- A request comes to the layers, with what `chat_completions_handler` is to get
    if it is a request for it; a handler starts; a handler or the reloading takes a
    step. -/
inductive FrontEvent (Contents : Type*) where
  | knock (k : Knock) (chat : Option ChatRequest)
  | enter (i : ℕ)
  | act (i : ℕ) (a : Action)
  | world (e : RouteConfig.Event Contents)

/-- The chat request that a knock lets through. -/
def letThrough (c : LoadedConfig) (limiter : Limiter) (k : Knock) (chat : Option ChatRequest) :
    List ChatRequest :=
  match (gate c limiter.buckets k).1 with
  | .ok _ => chat.toList
  | .error _ => []

/-- The gateway with the layers of `build_router`, and the handlers `P`. -/
def front (c : LoadedConfig)
    (P : Lib.Program (AppState Contents) Thread ChatRequest Action (RouteConfig.Event Contents)) :
    Lib.System (Front Contents) (FrontEvent Contents) where
  enabled s
    | .knock k _ => (knocks c).enabled s.limiter k
    | .enter i => i < s.waiting.length
    | .act i a => (Lib.pool P).enabled s.requests (.act i a)
    | .world e => (Lib.pool P).enabled s.requests (.world e)
  step s
    | .knock k chat =>
      { s with
        limiter := (knocks c).step s.limiter k
        waiting := s.waiting ++ letThrough c s.limiter k chat }
    | .enter i =>
      match s.waiting[i]? with
      | some req =>
        { s with
          waiting := s.waiting.eraseIdx i, requests := (Lib.pool P).step s.requests (.arrive req) }
      | none => s
    | .act i a => { s with requests := (Lib.pool P).step s.requests (.act i a) }
    | .world e => { s with requests := (Lib.pool P).step s.requests (.world e) }

/-- What a step is at the layers. -/
def atGate : Lib.Step (Front Contents) (FrontEvent Contents) → Option (Lib.Step Limiter Knock)
  | ⟨s, .knock k _, s'⟩ => some ⟨s.limiter, k, s'.limiter⟩
  | _ => none

/-- What a step is among the handlers. -/
def inside : Lib.Step (Front Contents) (FrontEvent Contents) → Option (RunStep Contents)
  | ⟨_, .knock _ _, _⟩ => none
  | ⟨s, .enter i, s'⟩ =>
    s.waiting[i]?.map fun req => ⟨s.requests, .arrive req, s'.requests⟩
  | ⟨s, .act i a, s'⟩ => some ⟨s.requests, .act i a, s'.requests⟩
  | ⟨s, .world e, s'⟩ => some ⟨s.requests, .world e, s'.requests⟩

/-- The chat requests that a run lets through, in order. -/
def passed (c : LoadedConfig) (tr : List (Lib.Step (Front Contents) (FrontEvent Contents))) :
    List ChatRequest :=
  tr.flatMap fun x =>
    match x.event with
    | .knock k chat => letThrough c x.pre.limiter k chat
    | _ => []

/-! ## What a request can still send -/

/-- The attempts in which a request may still be sent. -/
def Phase.budget : Phase → ℕ
  | .select n _ => n + 1
  | .ask n _ _ => n + 1
  | .send n _ _ => n + 1
  | .await n _ _ _ => n
  | .record n _ _ _ _ => n
  | .finished _ _ => 0

theorem next_budget (n : ℕ) (s : LoopState) : (Phase.next n s).budget = n := by
  cases n <;> rfl

theorem settle_budget (n : ℕ) (s : LoopState) (a : Attempt) (verdict : Verdict) :
    (settle n s a verdict).budget ≤ n := by
  cases verdict with
  | answer result => exact Nat.zero_le n
  | retry e => exact (next_budget ..).le

theorem selectStep_budget (job : Job) (n : ℕ) (s : LoopState) (shared : Shared) :
    (selectStep job n s shared).1.budget ≤ n + 1 := by
  rcases selectStep_cases job n s shared with ⟨-, h⟩ | ⟨e, counter, -, h⟩ | ⟨p, counter, -, h⟩ <;>
    rw [h]
  · exact Nat.zero_le _
  · exact Nat.zero_le _
  · exact Nat.le_refl _

theorem askStep_budget (job : Job) (n : ℕ) (s : LoopState) (p : WeightedProvider)
    (shared : Shared) (now : Instant) : (askStep job n s p shared now).1.budget ≤ n + 1 := by
  rcases askStep_cases job n s p shared now with ⟨-, h⟩ | ⟨-, h⟩ <;> rw [h]
  · exact Nat.le_refl _
  · exact (next_budget ..).trans_le (Nat.le_succ n)

theorem receiveStep_budget (job : Job) (n : ℕ) (s : LoopState) (q : Asked)
    (request : UpstreamRequest) (reply : Reply) :
    (receiveStep job n s q request reply).1.budget ≤ n := by
  rcases receiveStep_cases job n s q request reply with ⟨-, h⟩ | h <;> rw [h]
  · exact settle_budget ..
  · exact Nat.le_refl n

/-- A step takes from the budget what it sends. -/
theorem Move.send_budget {t : Thread} {w : AppState Contents} {action : Action}
    {next : Thread × AppState Contents} (h : Move t w action next) :
    (sends t w action).length + next.1.phase.budget ≤ t.phase.budget := by
  cases h with
  | emitted x pending _ => exact (Nat.zero_add _).le
  | selected n s hphase _ =>
    rw [hphase]
    exact (Nat.zero_add _).trans_le (selectStep_budget ..)
  | asked n s p now hphase _ _ =>
    rw [hphase]
    exact (Nat.zero_add _).trans_le (askStep_budget ..)
  | sent n s q token hphase _ =>
    simp only [sends, hphase, sendStep]
    cases buildRequest t.job (t.job.endpoint q.selected) token with
    | error e => exact Nat.zero_le _
    | ok request => exact (Nat.add_comm 1 n).le
  | received n s q request reply hphase _ =>
    rw [hphase]
    exact (Nat.zero_add _).trans_le (receiveStep_budget ..)
  | recorded n s q request reply now hphase _ _ =>
    rw [hphase]
    exact (Nat.zero_add _).trans_le (settle_budget ..)

theorem arrive_budget (G : Gateway) (req : ChatRequest) (shared : Shared) :
    (Thread.arrive G req shared).phase.budget ≤ 3 := by
  unfold Thread.arrive
  dsimp only
  split
  · exact Nat.zero_le 3
  · exact (next_budget ..).trans_le (maxAttempts_le _)

/-! ## Runs -/

section Runs

variable {c : LoadedConfig}
  {P : Lib.Program (AppState Contents) Thread ChatRequest Action (RouteConfig.Event Contents)}
  {s₀ s : Front Contents} {tr : List (Lib.Step (Front Contents) (FrontEvent Contents))}

instance [∀ p e, Decidable ((Lib.pool P).enabled p e)] :
    ∀ s e, Decidable ((front c P).enabled s e)
  | s, .knock k _ => inferInstanceAs (Decidable ((knocks c).enabled s.limiter k))
  | s, .enter i => inferInstanceAs (Decidable (i < s.waiting.length))
  | s, .act i a => inferInstanceAs (Decidable ((Lib.pool P).enabled s.requests (.act i a)))
  | s, .world e => inferInstanceAs (Decidable ((Lib.pool P).enabled s.requests (.world e)))

theorem step_enter {i : ℕ} {req : ChatRequest} (h : s.waiting[i]? = some req) :
    (front c P).step s (.enter i) =
      { s with
        waiting := s.waiting.eraseIdx i
        requests := (Lib.pool P).step s.requests (.arrive req) } := by
  simp only [front, h]

/-- A handler starts on a request that waits. -/
theorem exists_waiting {i : ℕ} (h : (front c P).enabled s (.enter i)) :
    ∃ req, s.waiting[i]? = some req :=
  ⟨_, List.getElem?_eq_getElem h⟩

/-- The layers do what they do without the handlers. -/
theorem gate_run (hrun : Lib.Run (front c P) s₀ tr s) :
    Lib.Run (knocks c) s₀.limiter (tr.filterMap atGate) s.limiter := by
  refine hrun.project (·.limiter) atGate fun s e henabled => ?_
  cases e with
  | knock k chat => exact .inr ⟨k, henabled, rfl, rfl⟩
  | enter i =>
    obtain ⟨req, hreq⟩ := exists_waiting henabled
    rw [step_enter hreq]
    exact .inl ⟨rfl, rfl⟩
  | act i a => exact .inl ⟨rfl, rfl⟩
  | world e => exact .inl ⟨rfl, rfl⟩

/-- The handlers do what they do without the layers. -/
theorem inside_run (hrun : Lib.Run (front c P) s₀ tr s) :
    Lib.Run (Lib.pool P) s₀.requests (tr.filterMap inside) s.requests := by
  refine hrun.project (·.requests) inside fun s e henabled => ?_
  cases e with
  | knock k chat => exact .inl ⟨rfl, rfl⟩
  | enter i =>
    obtain ⟨req, hreq⟩ := exists_waiting henabled
    rw [step_enter hreq]
    exact .inr ⟨.arrive req, trivial, congrArg (Option.map _) hreq, rfl⟩
  | act i a => exact .inr ⟨.act i a, henabled, rfl, rfl⟩
  | world e => exact .inr ⟨.world e, henabled, rfl, rfl⟩

end Runs

section Gateway

variable {c : LoadedConfig} {U : Unicode} {J : SerdeJson} {config : GatewayConfig}
  {loadRoutes : Contents → Option RouteConfigFile} {w₀ : AppState Contents}
  {p : Requests Contents} {s : Front Contents}

/-- What is sent to the providers, and what may still be sent. -/
theorem sends_length {tr : List (RunStep Contents)}
    (hrun : Lib.Run (Lib.pool (handlers U J config loadRoutes)) ⟨[], w₀⟩ tr p) :
    (Lib.callLog sends tr).length + p.total (·.phase.budget) ≤ 3 * p.threads.length :=
  hrun.callLog_length_le (fun req w => arrive_budget _ req w.shared)
    fun _ _ _ hready => (exec_move hready).send_budget

theorem map_req_act {i : ℕ} {t : Thread} {a : Action} (hold : p.threads[i]? = some t)
    (hready : t.Ready p.shared.clock a) :
    ((Lib.pool (handlers U J config loadRoutes)).step p (.act i a)).threads.map (·.req) =
      p.threads.map (·.req) := by
  have hreq : (t.exec p.shared a).1.req = t.req := (exec_move hready).same.2.1
  have hold' : (p.threads.map (·.req))[i]? = some t.req := by
    rw [List.getElem?_map, hold]
    rfl
  obtain ⟨hi, hget⟩ := List.getElem?_eq_some_iff.mp hold'
  rw [Lib.step_act hold, List.map_set]
  show (p.threads.map (·.req)).set i (t.exec p.shared a).1.req = _
  rw [hreq, ← hget]
  exact List.set_getElem_self hi

/-- What has been let through has been started or waits. -/
theorem passed_perm {tr : List (Lib.Step (Front Contents) (FrontEvent Contents))} {t₀ : Instant}
    (hrun : Lib.Run (front c (handlers U J config loadRoutes)) ⟨.new t₀, [], ⟨[], w₀⟩⟩ tr s) :
    (passed c tr).Perm (s.requests.threads.map (·.req) ++ s.waiting) := by
  induction hrun with
  | nil => exact .nil
  | @snoc tr s e _ henabled ih =>
    rw [passed, List.flatMap_append, List.flatMap_singleton]
    change (passed c tr ++ _).Perm _
    cases e with
    | knock k chat =>
      show (passed c tr ++ letThrough c s.limiter k chat).Perm
        (s.requests.threads.map (·.req) ++ (s.waiting ++ letThrough c s.limiter k chat))
      rw [← List.append_assoc]
      exact ih.append_right _
    | enter i =>
      obtain ⟨req, hreq⟩ := exists_waiting henabled
      obtain ⟨hi, hget⟩ := List.getElem?_eq_some_iff.mp hreq
      have hwaiting : (req :: s.waiting.eraseIdx i).Perm s.waiting :=
        hget ▸ List.getElem_cons_eraseIdx_perm hi
      rw [step_enter hreq, List.append_nil]
      refine ih.trans ?_
      show (_ ++ s.waiting).Perm ((s.requests.threads ++ [Thread.arrive _ req _]).map _ ++ _)
      rw [List.map_append, List.map_singleton, (arrive_same _ req _).2.1, List.append_assoc]
      exact hwaiting.symm.append_left _
    | act i a =>
      obtain ⟨t, hold, hready⟩ := henabled
      rw [List.append_nil]
      have hsame : ((Lib.pool (handlers U J config loadRoutes)).step s.requests
          (.act i a)).threads.map (·.req) = s.requests.threads.map (·.req) :=
        map_req_act hold hready
      exact ih.trans (.of_eq (congrArg (· ++ s.waiting) hsame.symm))
    | world e =>
      rw [List.append_nil]
      exact ih

end Gateway

/-! ## Example -/

/-- Bob's question is let through, his next one and a stranger's are not. -/
def busyDoor : List (FrontEvent RouteConfigFile) :=
  [.knock ⟨some "Bearer sk-b", 0, 0⟩ (some (questionTo "gpt-4o" false)),
    .knock ⟨some "Bearer sk-b", 5, 6⟩ (some (questionTo "gpt-4o" false)),
    .knock ⟨some "Bearer sk-c", 7, 7⟩ (some (questionTo "gpt-4o" false)),
    .enter 0, .act 0 .emit, .act 0 .emit, .act 0 .emit, .act 0 .emit, .act 0 .emit,
    .act 0 .select, .act 0 (.ask 0), .act 0 (.send none)]

/-- The gateway before. -/
def quietFront : Front RouteConfigFile := ⟨.new 0, [], ⟨[], freshState⟩⟩

theorem busyDoor_run : Lib.Run (front twoClients exampleHandlers) quietFront
    ((front twoClients exampleHandlers).trace quietFront busyDoor)
    (busyDoor.foldl (front twoClients exampleHandlers).step quietFront) := by
  refine Lib.run_trace _ _ _ ?_
  unfold exampleHandlers
  decide +kernel

end Melis.Router
