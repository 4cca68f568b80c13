import Melis.Balancer.ZeroWeight
import Melis.Router.Recording
import Melis.Router.SentModel

/-!
# Client errors of a provider

An answer with a 4xx status other than 429 is to go back to the client: it says
something about the request, not about the provider. The loop returns 400, 401, 403
and 404, and lets every other status fall through to the next provider.

* `rejection_recorded`: none of these statuses is recorded.
* `length_le_one_of_not_canGoOn`: when a second attempt is impossible.
* `exists_two_attempts`: when a status that falls through leads to one.
* `returnsAt_iff`: the requests and statuses for which the answer always goes back at
  once.
* `forwards_unprocessable`: an answer of 422 is put to another provider.
-/

namespace Melis.Router

open CircuitBreaker Client

/-- A 4xx status other than 429. -/
def IsRejection (status : ℕ) : Prop := 400 ≤ status ∧ status < 500 ∧ status ≠ 429

/-- The statuses that the loop returns (lines 667–687). -/
def IsReturned (status : ℕ) : Prop :=
  status = 400 ∨ status = 401 ∨ status = 403 ∨ status = 404

/-- A contact answered with `status` is the last attempt, nothing is recorded for it,
    and the client gets an error. -/
def ReturnsAt (status : ℕ) (run : LoopState × Exit) : Prop :=
  ∀ pre a post c body, run.1.attempts = pre ++ a :: post → a.contact = some c →
    c.reply = .answered status body →
      post = [] ∧ a.recorded = [] ∧ ∃ e, response run = .error e

/-- After a provider with a weight another one can be selected. -/
def CanGoOn (providers : List WeightedProvider) : Prop :=
  ∃ p ∈ providers, 0 < p.weight ∧
    ((Balancer.available providers [p.name]).length = 1 ∨
      ∃ q ∈ Balancer.available providers [p.name], 0 < q.weight)

/-! ## One answer -/

section Answer

variable {status : ℕ}

theorem send_rejection (h : IsRejection status) (body : Body) :
    send (.answered status body) = .error (.httpError status (bodyText body)) :=
  send_answered_of_not_success (isSuccess_eq_false (by have := h.1; omega)) body

/-- Nothing is recorded for a rejection. -/
theorem rejection_recorded {job : Job} (hawaited : job.streaming = false) (h : IsRejection status)
    (endpoint : Endpoint) (body : Body) :
    (exchange job endpoint (.answered status body)).1 = [] := by
  rw [exchange_of_awaited hawaited, send_rejection h, sendOutcome, httpErrorOutcome_recorded,
    if_neg h.2.2, if_neg (Nat.not_le_of_lt h.2.1)]

/-- The response to a rejection is an error. -/
theorem rejection_not_success {job : Job} (hawaited : job.streaming = false)
    (h : IsRejection status) (endpoint : Endpoint) (body : Body) (recorded : List CallResult)
    (r : Response) :
    exchange job endpoint (.answered status body) ≠ (recorded, .answer (.ok r)) := by
  intro hexchange
  obtain ⟨bytes, v, hsend, -⟩ := exchange_success hawaited hexchange
  rw [send_rejection h] at hsend
  cases hsend

/-- A rejection that is not returned lets the loop go on. -/
theorem rejection_retried {job : Job} (hawaited : job.streaming = false) (h : IsRejection status)
    (hnot : ¬ IsReturned status) (endpoint : Endpoint) (body : Body) :
    ∃ e, exchange job endpoint (.answered status body) = ([], .retry e) := by
  simp only [IsReturned, not_or] at hnot
  rw [exchange_of_awaited hawaited, send_rejection h, sendOutcome, httpErrorOutcome,
    if_neg hnot.1, if_neg (not_or.mpr ⟨hnot.2.1, hnot.2.2.1⟩), if_neg hnot.2.2.2, if_neg h.2.2,
    if_neg (Nat.not_le_of_lt h.2.1)]
  exact ⟨_, rfl⟩

end Answer

/-! ## One run -/

section Run

variable {G : Gateway} {env : ℕ → Surroundings} {req : ChatRequest} {shared : Shared}
  {status : ℕ}

/-- At the last attempt, a rejection goes back to the client. -/
theorem returnsAt_of_last (hawaited : req.streaming = false) (hstatus : IsRejection status)
    (hlast : ∀ pre a post c body,
      (chatCompletions G env req shared).1.attempts = pre ++ a :: post → a.contact = some c →
        c.reply = .answered status body → post = []) :
    ReturnsAt status (chatCompletions G env req shared) := by
  intro pre a post c body hattempts hc hreply
  have hended := chatCompletions_ended G env req shared
  obtain rfl := hlast pre a post c body hattempts hc hreply
  have ha : a ∈ (chatCompletions G env req shared).1.attempts := by simp [hattempts]
  refine ⟨rfl, ?_, ?_⟩
  · obtain ⟨-, -, -, hrecorded⟩ := (hended.sound a ha).contact c hc
    rw [hrecorded, hreply]
    exact rejection_recorded hawaited hstatus _ _
  · cases hresponse : response (chatCompletions G env req shared) with
    | error e => exact ⟨e, rfl⟩
    | ok r =>
      obtain ⟨pre', a', c', hattempts', hc', hexchange⟩ :=
        hended.success r (response_eq_ok hresponse)
      obtain ⟨-, hsame⟩ := List.append_inj' (hattempts.symm.trans hattempts') rfl
      obtain rfl := List.singleton_inj.mp hsame
      obtain rfl : c = c' := Option.some.inj (hc.symm.trans hc')
      rw [hreply] at hexchange
      exact absurd hexchange (rejection_not_success hawaited hstatus _ _ _ _)

/-- The returned statuses settle the request. -/
theorem returnsAt_of_isReturned (hawaited : req.streaming = false) (hstatus : IsRejection status)
    (h : IsReturned status) : ReturnsAt status (chatCompletions G env req shared) := by
  refine returnsAt_of_last hawaited hstatus fun pre a post c body hattempts hc hreply => ?_
  obtain ⟨-, -, -, hsettled, -⟩ := contacts_sound G env req shared hawaited
  exact hsettled pre a post c hattempts hc (hreply ▸ .inr ⟨status, body, rfl, h⟩)

end Run

/-! ## A second attempt -/

section Second

variable {job : Job} {w : Surroundings} {s : LoopState} {p : WeightedProvider}

/-- A selection among several candidates has a weight. -/
theorem weight_pos_of_selection (h : (selection job w s).1 = .ok p)
    (hmany : candidates job s ≠ [p]) : 0 < p.weight := by
  have hwalk : Balancer.NotZeroAlone (candidates job s) := by
    intro q hq
    rw [selection, hq] at h
    obtain rfl : q = p := Except.ok.inj h
    exact absurd hq hmany
  rw [selection, (Balancer.selectProvider_eq_weightedWalk_iff _ _).mpr hwalk] at h
  exact Balancer.weightedWalk_ok h

theorem candidates_excluded (job : Job) {s : LoopState} {name : String}
    (h : s.excluded = [name]) :
    candidates job s = Balancer.available job.providers [name] := by
  rw [candidates, h]
  rfl

theorem not_mem_available (providers : List WeightedProvider) (p : WeightedProvider) :
    p ∉ Balancer.available providers [p.name] := by
  simp [Balancer.available]

theorem available_subset {providers : List WeightedProvider} {names : List String} :
    Balancer.available providers names ⊆ providers :=
  fun _ h => List.mem_of_mem_filter h

/-- Two attempts show that the loop can go on. -/
theorem canGoOn_of_selections {w' : Surroundings} {s' : LoopState} {q : WeightedProvider}
    {shared : Shared} (hp : (selection job w (.start shared)).1 = .ok p)
    (hexcluded : s'.excluded = [p.name]) (hq : (selection job w' s').1 = .ok q) :
    CanGoOn job.providers := by
  rw [selection, candidates_excluded job hexcluded] at hq
  have hrest := Balancer.mem_of_selectProvider hq
  refine ⟨p, (mem_providers_of_selection hp).1, weight_pos_of_selection hp fun hsingle => ?_,
    (Balancer.selectProvider_ok_iff _ _).mp ⟨q, hq⟩⟩
  rw [candidates_start] at hsingle
  have hqp : q ∈ [p] := hsingle ▸ available_subset hrest
  obtain rfl := List.mem_singleton.mp hqp
  exact not_mem_available _ _ hrest

/-- An exchange that is to be retried takes the loop to its next turn. -/
theorem attempt_retries {request : UpstreamRequest} {recorded : List CallResult}
    {e : GatewayError} (hselected : (selection job w s).1 = .ok p)
    (hopen : (opening job w s p).available job.config = true)
    (hbuild : buildRequest job (job.endpoint p) w.token = .ok request)
    (hexchange : exchange job (job.endpoint p) w.reply = (recorded, .retry e)) :
    ∃ s', attempt job w s = .next s' ∧ s'.excluded = s.excluded ++ [p.name] ∧
      s'.attempts = s.attempts ++ [contacting job w s p request recorded] := by
  have hsame : ∀ q, (selection job w s).1 = .ok q → q = p := fun q hq =>
    Except.ok.inj (hq.symm.trans hselected)
  have hturn := attempt_turn job w s
  generalize hflow : attempt job w s = flow at hturn
  cases hturn with
  | exhausted hnone =>
    have hmem := mem_candidates.mpr (mem_providers_of_selection hselected)
    rw [hnone] at hmem
    cases hmem
  | unselected e shared hne hsel hweight =>
    rw [hsel] at hselected
    cases hselected
  | skipped q shared hsel hclosed hstates =>
    obtain rfl := hsame q hsel
    rw [hopen] at hclosed
    cases hclosed
  | unsent q shared e hsel _ hfail =>
    obtain rfl := hsame q hsel
    rw [hbuild] at hfail
    cases hfail
  | answered q shared request recorded result hsel _ _ hanswer =>
    obtain rfl := hsame q hsel
    rw [hexchange] at hanswer
    cases hanswer
  | retried q shared request' recorded' e' hsel _ hbuild' hexchange' hstates =>
    obtain rfl := hsame q hsel
    rw [hbuild] at hbuild'
    rw [hexchange] at hexchange'
    obtain rfl := Except.ok.inj hbuild'
    cases hexchange'
    exact ⟨_, rfl, rfl, rfl⟩

/-- With a request built, a selection makes an attempt. -/
theorem exists_attempt (hselected : (selection job w s).1 = .ok p)
    (hbuild : ∃ request, buildRequest job (job.endpoint p) w.token = .ok request) :
    ∃ a, (attempt job w s).state.attempts = s.attempts ++ [a] := by
  obtain ⟨request, hbuild⟩ := hbuild
  rcases attempt_of_selected hselected with
    ⟨-, hattempts⟩ | ⟨-, ⟨e, hfail⟩ | ⟨request', recorded, -, hattempts⟩⟩
  · exact ⟨_, hattempts⟩
  · rw [hbuild] at hfail
    cases hfail
  · exact ⟨_, hattempts⟩

theorem two_le_maxAttempts {q : WeightedProvider} (hp : p ∈ job.providers)
    (hq : q ∈ Balancer.available job.providers [p.name]) : ∃ n, maxAttempts job = n + 2 := by
  have hlen : 2 ≤ job.providers.length := by
    match hproviders : job.providers with
    | [] =>
      rw [hproviders] at hp
      cases hp
    | [r] =>
      rw [hproviders] at hp hq
      obtain rfl := List.mem_singleton.mp hp
      obtain rfl := List.mem_singleton.mp (available_subset hq)
      exact absurd hq (not_mem_available _ _)
    | _ :: _ :: _ => simp
  exact ⟨maxAttempts job - 2, by unfold maxAttempts; omega⟩

/-- A rejection that is not returned is put to another provider, if there is one. -/
theorem exists_two_attempts {status : ℕ} (hsend : job.Sendable) (hawaited : job.streaming = false)
    (hstatus : IsRejection status) (hnot : ¬ IsReturned status) (hgo : CanGoOn job.providers)
    (body : Body) :
    ∃ shared a b post c, (failover job (fun _ => alone 0 (.answered status body))
      shared).1.attempts = a :: b :: post ∧ a.contact = some c ∧
        c.reply = .answered status body := by
  obtain ⟨p, hp, hweight, hrest⟩ := hgo
  obtain ⟨counter, hselected⟩ := exists_counter_selection hp hweight
  let w := alone 0 (.answered status body)
  have hbuild : ∀ q, ∃ request, buildRequest job (job.endpoint q) w.token = .ok request :=
    fun q => exists_buildRequest hsend (job.endpoint q) "token"
  obtain ⟨request, hrequest⟩ := hbuild p
  obtain ⟨e, hexchange⟩ := rejection_retried hawaited hstatus hnot (job.endpoint p) body
  obtain ⟨s, hnext, hexcluded, hattempts⟩ := attempt_retries
    (hselected w .new (alone_quiet _ _)) (isAvailable_new _ _ _) hrequest hexchange
  -- the second turn selects among the others
  obtain ⟨q, hq⟩ : ∃ q, (selection job w s).1 = .ok q := by
    rw [selection, candidates_excluded job hexcluded]
    exact (Balancer.selectProvider_ok_iff _ _).mpr hrest
  obtain ⟨b, hb⟩ := exists_attempt hq (hbuild q)
  have hmem : q ∈ Balancer.available job.providers [p.name] := by
    rw [← candidates_excluded job hexcluded]
    exact Balancer.mem_of_selectProvider hq
  obtain ⟨n, hn⟩ := two_le_maxAttempts hp hmem
  have hprefix := failoverFrom_succ_isPrefix job (fun _ => w) n 1 s
  rw [hb, hattempts] at hprefix
  obtain ⟨post, hpost⟩ := hprefix
  refine ⟨⟨counter, .new⟩, contacting job w (.start ⟨counter, .new⟩) p request [], b, post, _, ?_,
    rfl, rfl⟩
  rw [failover, hn, failoverFrom, hnext]
  exact hpost.symm

/-- Where the loop cannot go on, there is one attempt at most. -/
theorem length_le_one_of_not_canGoOn (h : ¬ CanGoOn job.providers) (env : ℕ → Surroundings)
    (shared : Shared) : (failover job env shared).1.attempts.length ≤ 1 := by
  have hsecond : ∀ (w : Surroundings) (p : WeightedProvider) (s : LoopState) (n : ℕ),
      (selection job w (.start shared)).1 = .ok p → s.excluded = [p.name] →
      s.attempts.length = 1 → (failoverFrom job env n 1 s).1.attempts.length ≤ 1 := by
    intro w p s n hp hexcluded hlen
    cases n with
    | zero => exact hlen.le
    | succ n =>
      have hturn := attempt_turn job (env 1) s
      rw [failoverFrom]
      generalize attempt job (env 1) s = flow at hturn ⊢
      cases hturn with
      | exhausted _ => exact hlen.le
      | unselected _ _ _ _ _ => exact hlen.le
      | skipped q _ hq _ _ => exact absurd (canGoOn_of_selections hp hexcluded hq) h
      | unsent q _ _ hq _ _ => exact absurd (canGoOn_of_selections hp hexcluded hq) h
      | answered q _ _ _ _ hq _ _ _ => exact absurd (canGoOn_of_selections hp hexcluded hq) h
      | retried q _ _ _ _ hq _ _ _ _ => exact absurd (canGoOn_of_selections hp hexcluded hq) h
  rw [failover]
  cases maxAttempts job with
  | zero => exact Nat.zero_le 1
  | succ n =>
    have hturn := attempt_turn job (env 0) (.start shared)
    rw [failoverFrom]
    generalize attempt job (env 0) (.start shared) = flow at hturn ⊢
    cases hturn with
    | exhausted _ => exact Nat.zero_le 1
    | unselected _ _ _ _ _ => exact Nat.zero_le 1
    | skipped p _ hp _ _ => exact hsecond _ p _ n hp rfl rfl
    | unsent _ _ _ _ _ _ => exact le_rfl
    | answered _ _ _ _ _ _ _ _ _ => exact le_rfl
    | retried p _ _ _ _ hp _ _ _ _ => exact hsecond _ p _ n hp rfl rfl

end Second

/-! ## Every run -/

/-- **Client errors.** For an awaited request and a 4xx status other than 429: in every
    run the contacts answered with it are the last attempt, record nothing and give the
    client an error, exactly if the status is 400, 401, 403 or 404, or the payload is
    rejected, or the route has no second provider to go on with. -/
theorem returnsAt_iff (G : Gateway) (req : ChatRequest) (hawaited : req.streaming = false)
    {status : ℕ} (hstatus : IsRejection status) :
    (∀ env shared, ReturnsAt status (chatCompletions G env req shared)) ↔
      IsReturned status ∨ validateChatPayload req.payload ≠ .ok () ∨
        ¬ CanGoOn (G.resolve req).providers := by
  constructor
  · intro h
    by_contra! hnot
    obtain ⟨hreturned, haccept, hgo⟩ := hnot
    obtain ⟨shared, a, b, post, c, hattempts, hc, hreply⟩ := exists_two_attempts
      (sendable_of_accepted G haccept) hawaited hstatus hreturned hgo (.complete [] "")
    rw [← chatCompletions_of_accepted G req haccept] at hattempts
    obtain ⟨hnil, -⟩ := h _ shared [] a (b :: post) c _ hattempts hc hreply
    cases hnil
  · intro h env shared
    rcases h with hreturned | hrejected | hstop
    · exact returnsAt_of_isReturned hawaited hstatus hreturned
    · intro pre a post c body hattempts _ _
      have ha : a ∈ (chatCompletions G env req shared).1.attempts := by simp [hattempts]
      exact absurd (accepted_of_mem G req ha) hrejected
    · refine returnsAt_of_last hawaited hstatus fun pre a post c body hattempts _ _ => ?_
      have ha : a ∈ (chatCompletions G env req shared).1.attempts := by simp [hattempts]
      have hlen : (failover (G.job req) env shared).1.attempts.length ≤ 1 :=
        length_le_one_of_not_canGoOn hstop env shared
      rw [← chatCompletions_of_accepted G req (accepted_of_mem G req ha), hattempts,
        List.length_append, List.length_cons] at hlen
      exact List.length_eq_zero_iff.mp (by omega)

/-! ## An unprocessable request -/

/-- A route to two providers. -/
def twoChoices : Gateway := oneRoute [⟨"openai", 1, "gpt-4o"⟩, ⟨"gemini", 1, "gemini-pro"⟩]

/-- An answer of 400 goes back at once. -/
theorem returnsAt_badRequest :
    IsRejection 400 ∧ ∀ env shared,
      ReturnsAt 400 (chatCompletions twoChoices env (questionTo "gpt-4o" false) shared) := by
  have hstatus : IsRejection 400 := ⟨by decide, by decide, by decide⟩
  exact ⟨hstatus,
    (returnsAt_iff twoChoices (questionTo "gpt-4o" false) rfl hstatus).mpr (.inl (.inl rfl))⟩

/-- The replies of the contacts, attempt by attempt. -/
def LoopState.replies (s : LoopState) : List (Option Reply) :=
  s.attempts.map fun a => a.contact.map (·.reply)

/-- An answer of 422 from the first provider is put to the second one. -/
theorem forwards_unprocessable :
    ¬ ∀ (G : Gateway) (env : ℕ → Surroundings) (req : ChatRequest) (shared : Shared)
      (status : ℕ), req.streaming = false → IsRejection status →
        ReturnsAt status (chatCompletions G env req shared) := by
  intro h
  have hreturns := h twoChoices (fun _ => alone 0 (.answered 422 (.complete [] "")))
    (questionTo "gpt-4o" false) freshShared 422 rfl ⟨by decide, by decide, by decide⟩
  have hreplies : (chatCompletions twoChoices (fun _ => alone 0 (.answered 422 (.complete [] "")))
      (questionTo "gpt-4o" false) freshShared).1.replies =
      [some (.answered 422 (.complete [] "")), some (.answered 422 (.complete [] ""))] := by
    decide
  obtain ⟨a, post, hattempts, hreply, hpost⟩ := List.map_eq_cons_iff.mp hreplies
  obtain ⟨c, hc, hreply⟩ := Option.map_eq_some_iff.mp hreply
  obtain ⟨rfl, -⟩ := hreturns [] a post c _ hattempts hc hreply
  cases hpost

end Melis.Router
