import Melis.Balancer.Distribution
import Melis.Router.SentModel

/-!
# Traffic on several routes

All routes draw their ticks from the one counter of `AppState::load_balancer`,
and each takes them modulo the total weight of its own providers. `traffic` is
the system of requests to multi-provider routes whose circuits let calls through
and whose upstreams succeed, in the order in which they select.

* `Served.selected`: such a request makes one selection, at the counter it reads.
* `proportional_of_spaced`: a route is distributed exactly if the requests of the
  others come between its own in multiples of its total weight.
* `traffic_proportional`: when a window of requests to a route is distributed
  exactly.
* `routes_interfere`: two routes of two providers each, taking turns.
-/

namespace Melis.Router

open CircuitBreaker Client

/-! ## One request of the traffic -/

/-- A request as the handler meets it: the shared state when it arrives, and what
    surrounds its attempts. -/
structure Handling where
  req : ChatRequest
  env : ℕ → Surroundings
  shared : Shared

/-- The handler's run. -/
def Handling.run (G : Gateway) (h : Handling) : LoopState × Exit :=
  chatCompletions G h.env h.req h.shared

/-- The request is accepted and its route has two providers or more and a weight;
    it reads `counter` when it selects, every circuit lets calls through when it
    asks (a closed one does), and the upstream succeeds. -/
structure Handling.Served (G : Gateway) (counter : ℕ) (h : Handling) : Prop where
  accepted : validateChatPayload h.req.payload = .ok ()
  several : 2 ≤ (G.resolve h.req).providers.length
  weighted : 0 < Balancer.totalWeight (G.resolve h.req).providers
  reads : ((h.env 0).beforeSelect h.shared).counter = counter
  closed : ∀ p ∈ (G.resolve h.req).providers,
    (opening (G.job h.req) (h.env 0) (.start h.shared) p).available G.config = true
  succeeds : ∃ bytes, send (h.env 0).reply = .ok bytes

/-- The requests, in the order of their ticks; the state is the counter. -/
def traffic (G : Gateway) : Lib.System ℕ Handling where
  enabled counter h := h.Served G counter
  step counter h := (Balancer.selectProvider counter (G.resolve h.req).providers).2

/-- The request goes to `route`. -/
def Handling.isTo (G : Gateway) (route : RouteDefinition) (h : Handling) : Bool :=
  decide (G.resolver.resolveRoute G.U h.req.path "POST" = some route)

/-- The counter values that the requests to `route` read. -/
def ticksOf (G : Gateway) (route : RouteDefinition) (tr : List (Lib.Step ℕ Handling)) : List ℕ :=
  (tr.filter (·.event.isTo G route)).map (·.pre)

section Request

variable {G : Gateway} {counter : ℕ} {h : Handling}

theorem exchange_of_success (job : Job) (endpoint : Endpoint) {reply : Reply}
    {bytes : List UInt8} (hsend : send reply = .ok bytes) :
    ∃ result, (exchange job endpoint reply).2 = .answer result := by
  unfold exchange
  split_ifs
  · exact ⟨_, rfl⟩
  · rw [hsend]
    exact ⟨_, rfl⟩

/-- A request of the traffic makes one attempt, at the provider that its counter
    value selects. -/
theorem Handling.Served.selected (hserved : h.Served G counter) :
    ∃ p, (Balancer.selectProvider counter (G.resolve h.req).providers).1 = .ok p ∧
      (h.run G).1.attempts.map (·.selected) = [p] := by
  have hselection : selection (G.job h.req) (h.env 0) (.start h.shared) =
      Balancer.selectProvider counter (G.resolve h.req).providers := by
    rw [selection, candidates_start]
    show Balancer.selectProvider ((h.env 0).beforeSelect h.shared).counter _ = _
    rw [hserved.reads]
    rfl
  have hsel := Balancer.selectProvider_eq hserved.several hserved.weighted counter
  generalize (G.resolve h.req).providers.get _ = p at hsel
  have hp : (selection (G.job h.req) (h.env 0) (.start h.shared)).1 = .ok p := by
    rw [hselection, hsel]
  have hmem := (mem_providers_of_selection hp).1
  refine ⟨p, by rw [hsel], ?_⟩
  obtain ⟨n, hn⟩ := exists_maxAttempts hmem
  rw [Handling.run, chatCompletions_of_accepted G h.req hserved.accepted, failover, hn,
    failoverFrom]
  have hturn := attempt_turn (G.job h.req) (h.env 0) (.start h.shared)
  generalize attempt (G.job h.req) (h.env 0) (.start h.shared) = flow at hturn ⊢
  obtain ⟨bytes, hsend⟩ := hserved.succeeds
  cases hturn with
  | exhausted hnone =>
    rw [candidates_start] at hnone
    rw [hnone] at hmem
    cases hmem
  | unselected e shared hne hselected hweight =>
    rw [hp] at hselected
    cases hselected
  | skipped q shared hselected hopen hstates =>
    have hclosed := hserved.closed q (mem_providers_of_selection hselected).1
    rw [show G.config = (G.job h.req).config from rfl, hopen] at hclosed
    cases hclosed
  | unsent q shared e hselected hopen hbuild =>
    rw [hp] at hselected
    cases hselected
    rfl
  | answered q shared request recorded result hselected hopen hbuild hexchange =>
    rw [hp] at hselected
    cases hselected
    rfl
  | retried q shared request recorded e hselected hopen hbuild hexchange hstates =>
    obtain ⟨result, hanswer⟩ := exchange_of_success (G.job h.req) ((G.job h.req).endpoint q) hsend
    rw [hexchange] at hanswer
    cases hanswer

/-- Every request of the traffic takes one tick. -/
theorem traffic_step (hserved : h.Served G counter) :
    (traffic G).step counter h = (counter + 1) % 2 ^ 64 := by
  show (Balancer.selectProvider counter (G.resolve h.req).providers).2 = _
  rw [Balancer.selectProvider_eq hserved.several hserved.weighted]

end Request

/-! ## Runs -/

section Runs

variable {G : Gateway} {c₀ c : ℕ} {tr : List (Lib.Step ℕ Handling)} {route : RouteDefinition}
  {providers : List WeightedProvider}

/-- The counter counts the requests. -/
theorem traffic_counter (hc : c₀ < 2 ^ 64) (hrun : Lib.Run (traffic G) c₀ tr c) :
    c = (c₀ + tr.length) % 2 ^ 64 := by
  induction hrun with
  | nil => exact (Nat.mod_eq_of_lt hc).symm
  | @snoc tr c h hrun hserved ih =>
    rw [traffic_step hserved, ih, List.length_append, List.length_singleton]
    omega

theorem traffic_counter_split {pre post : List (Lib.Step ℕ Handling)} {x : Lib.Step ℕ Handling}
    (hc : c₀ < 2 ^ 64) (hrun : Lib.Run (traffic G) c₀ (pre ++ x :: post) c) :
    x.pre = (c₀ + pre.length) % 2 ^ 64 :=
  traffic_counter hc hrun.split.1

/-- Between two requests to `route` with none to it in between, the number of
    requests to other routes is a multiple of `W`. -/
def Spaced (G : Gateway) (route : RouteDefinition) (W : ℕ) (tr : List (Lib.Step ℕ Handling)) :
    Prop :=
  ∀ pre x mid y post, tr = pre ++ x :: (mid ++ y :: post) → x.event.isTo G route = true →
    y.event.isTo G route = true → (∀ z ∈ mid, z.event.isTo G route = false) → W ∣ mid.length

/-- Two successive requests to a route, and what lies between them. -/
theorem exists_between {α : Type*} {p : α → Bool} {l a b : List α} {x y : α}
    (h : l.filter p = a ++ x :: y :: b) :
    ∃ pre mid post, l = pre ++ x :: (mid ++ y :: post) ∧ p x = true ∧ p y = true ∧
      ∀ z ∈ mid, p z = false := by
  obtain ⟨pre, rest, rfl, -, hrest⟩ := List.filter_eq_append_iff.mp h
  obtain ⟨skip, tail, rfl, -, hx, htail⟩ := List.filter_eq_cons_iff.mp hrest
  obtain ⟨mid, post, rfl, hmid, hy, -⟩ := List.filter_eq_cons_iff.mp htail
  exact ⟨pre ++ skip, mid, post, by simp, hx, hy, fun z hz => by simpa using hmid z hz⟩

/-- In spaced traffic the requests of a route read successive residues. -/
theorem ticksOf_successive {W : ℕ} (hc : c₀ + tr.length ≤ 2 ^ 64)
    (hrun : Lib.Run (traffic G) c₀ tr c) (hspaced : Spaced G route W tr) :
    Lib.Successive W (ticksOf G route tr) := by
  refine List.isChain_iff_forall_rel_of_append_cons_cons.mpr fun t t' a b h => ?_
  obtain ⟨a', rest, hfilter, -, hrest⟩ := List.map_eq_append_iff.mp h
  obtain ⟨x, rest', rfl, rfl, hrest'⟩ := List.map_eq_cons_iff.mp hrest
  obtain ⟨y, b', rfl, rfl, -⟩ := List.map_eq_cons_iff.mp hrest'
  obtain ⟨pre, mid, post, rfl, hx, hy, hmid⟩ := exists_between hfilter
  obtain ⟨k, hk⟩ := hspaced pre x mid y post rfl hx hy hmid
  have hlen : c₀ + (pre.length + (mid.length + post.length + 2)) ≤ 2 ^ 64 := by
    simp only [List.length_append, List.length_cons] at hc
    omega
  have hprex : x.pre = c₀ + pre.length := by
    rw [traffic_counter_split (by omega) hrun, Nat.mod_eq_of_lt (by omega)]
  have hprey : y.pre = c₀ + pre.length + 1 + mid.length := by
    have hrun' : Lib.Run (traffic G) c₀ ((pre ++ x :: mid) ++ y :: post) c := by
      simpa using hrun
    rw [traffic_counter_split (by omega) hrun', List.length_append, List.length_cons,
      Nat.mod_eq_of_lt (by omega)]
    omega
  rw [hprex, hprey, hk, Nat.add_mul_mod_self_left]

/-- If the requests of the other routes come in multiples of a route's total
    weight, the route is distributed exactly. -/
theorem proportional_of_spaced (hW : 0 < Balancer.totalWeight providers)
    (hc : c₀ + tr.length ≤ 2 ^ 64) (hrun : Lib.Run (traffic G) c₀ tr c)
    (hspaced : Spaced G route (Balancer.totalWeight providers) tr) {window : List ℕ}
    (hwindow : window <:+: ticksOf G route tr)
    (hlen : window.length = Balancer.totalWeight providers) :
    Balancer.Proportional providers window := by
  have hsuccessive : Lib.Successive (Balancer.totalWeight providers) window :=
    List.IsChain.infix (ticksOf_successive hc hrun hspaced) hwindow
  exact Balancer.proportional_of_nodup hW hlen (hsuccessive.nodup hlen.le)

/-- A request of a run selects the entry that its counter value picks. -/
theorem selected_of_mem (hrun : Lib.Run (traffic G) c₀ tr c)
    (hproviders : route.providers = some providers) (hlen : 2 ≤ providers.length)
    (hW : 0 < Balancer.totalWeight providers) {x : Lib.Step ℕ Handling} (hx : x ∈ tr)
    (hto : x.event.isTo G route = true) :
    ∃ p, providers[Balancer.selectPosition x.pre providers]? = some p ∧
      (x.event.run G).1.attempts.map (·.selected) = [p] := by
  obtain ⟨pre, post, rfl⟩ := List.append_of_mem hx
  have hserved : x.event.Served G x.pre := hrun.split.2.1
  have hresolve : (G.resolve x.event.req).providers = providers := by
    have hroute : G.resolver.resolveRoute G.U x.event.req.path "POST" = some route :=
      of_decide_eq_true hto
    simp [Gateway.resolve, resolveRouteConfig, hroute, extractProviders, hproviders]
  obtain ⟨p, hp, hattempts⟩ := hserved.selected
  rw [hresolve, Balancer.selectProvider_eq hlen hW] at hp
  refine ⟨p, ?_, hattempts⟩
  rw [← Except.ok.inj hp]
  exact List.getElem?_eq_getElem (Balancer.selectPosition_lt hW x.pre)

/-- A window that follows every weight table of total `W` is distinct modulo `W`:
    it follows the table of `W` entries of weight one. -/
theorem nodup_of_entries {W : ℕ} (hW : 0 < W) {window : List ℕ} (hlength : window.length = W)
    (h : ∀ entries : List WeightedProvider, 2 ≤ entries.length →
      Balancer.totalWeight entries = W → Balancer.Proportional entries window) :
    (window.map (· % W)).Nodup := by
  rcases Nat.lt_or_ge W 2 with hone | htwo
  · match window with
    | [] => exact List.nodup_nil
    | [t] => exact List.nodup_singleton _
    | t :: t' :: ts =>
      simp only [List.length_cons] at hlength
      omega
  · have hunit := h (Balancer.unitWeights W)
      (htwo.trans_eq (List.length_replicate ..).symm) (Balancer.totalWeight_unitWeights W)
    exact Balancer.nodup_of_proportional hW hunit

/-- **Traffic.** In every run of requests to multi-provider routes, from any
    counter, each request selects the entry that its counter value picks, and for
    every `W` consecutive requests to a route of total weight `W`:
    the selections follow the weights exactly if, for each entry, as many of the
    counter values read lie in its slice modulo `W` as its weight says; if the
    values are distinct modulo `W`, they follow them whatever the entries' weights
    are, and for every weight table of total `W` together only then. In traffic
    whose other requests come in multiples of `W` they always follow them. -/
theorem traffic_proportional (hrun : Lib.Run (traffic G) c₀ tr c)
    (hproviders : route.providers = some providers) (hlen : 2 ≤ providers.length)
    (hW : 0 < Balancer.totalWeight providers) :
    let W := Balancer.totalWeight providers
    let residues (window : List ℕ) := window.map (· % W)
    (∀ x ∈ tr, x.event.isTo G route = true →
      ∃ p, providers[Balancer.selectPosition x.pre providers]? = some p ∧
        (x.event.run G).1.attempts.map (·.selected) = [p]) ∧
    (∀ window, window <:+: ticksOf G route tr → window.length = W →
      (Balancer.Proportional providers window ↔ ∀ i (hi : i < providers.length),
        window.countP (Lib.inSlice (Balancer.sliceStart providers i) providers[i].weight W) =
          providers[i].weight) ∧
      ((∀ entries : List WeightedProvider, 2 ≤ entries.length →
        Balancer.totalWeight entries = W → Balancer.Proportional entries window) ↔
          (residues window).Nodup)) ∧
    (c₀ + tr.length ≤ 2 ^ 64 → Spaced G route W tr →
      ∀ window, window <:+: ticksOf G route tr → window.length = W →
        Balancer.Proportional providers window) := by
  intro W residues
  refine ⟨fun x hx hto => selected_of_mem hrun hproviders hlen hW hx hto,
    fun window hwindow hlength => ⟨?_, fun h => nodup_of_entries hW hlength h, fun h => ?_⟩, ?_⟩
  · refine forall₂_congr fun i hi => ?_
    rw [Balancer.count_selectPosition hW hi]
  · intro entries _ hentries
    exact Balancer.proportional_of_nodup (hentries ▸ hW) (hlength.trans hentries.symm)
      (hentries ▸ h)
  · intro hc hspaced window hwindow hlength
    exact proportional_of_spaced hW hc hrun hspaced hwindow hlength

end Runs

/-! ## Two routes -/

/-- Every run distributes every route by weight over its full cycles. -/
def DistributesByWeight (G : Gateway) : Prop :=
  ∀ c₀ tr c, Lib.Run (traffic G) c₀ tr c → ∀ (route : RouteDefinition) providers,
    route.providers = some providers → 2 ≤ providers.length →
      0 < Balancer.totalWeight providers → ∀ window, window <:+: ticksOf G route tr →
        window.length = Balancer.totalWeight providers → Balancer.Proportional providers window

/-- Two providers of weight 1. -/
def pair : List WeightedProvider := [⟨"openai", 1, "gpt-4o"⟩, ⟨"ollama", 1, "llama3"⟩]

/-- The route of a path to this pair. -/
def pairRoute (path : String) : RouteDefinition := ⟨path, "POST", none, none, some pair, none⟩

/-- A gateway with two such routes. -/
def twoRoutes : Gateway where
  U := Unicode.ascii
  J := emptyObjectJson
  config := ⟨[], .default, .default⟩
  resolver := .new Unicode.ascii
    { routes := [pairRoute "/v1/chat/completions", pairRoute "/v1/support"] }

/-- A question to a path, answered by the upstream. -/
def askAt (path : String) (counter : ℕ) : Handling where
  req := { questionTo "gpt-4o" false with path }
  env _ := alone 0 (.answered 200 (.complete [0x7b, 0x7d] "\x7b\x7d"))
  shared := ⟨counter, .new⟩

theorem askAt_served {path : String} {counter : ℕ}
    (h : (twoRoutes.resolve (askAt path counter).req).providers = pair) :
    (askAt path counter).Served twoRoutes counter where
  accepted := rfl
  several := by rw [h]; decide
  weighted := by rw [h]; decide
  reads := rfl
  closed _ _ := rfl
  succeeds := ⟨_, rfl⟩

/-- Requests that take turns between the two routes. -/
def turns : List Handling :=
  [askAt "/v1/chat/completions" 0, askAt "/v1/support" 1, askAt "/v1/chat/completions" 2,
    askAt "/v1/support" 3]

/-- Two requests to the first route, with two to the second in between. -/
def apart : List Handling :=
  [askAt "/v1/chat/completions" 0, askAt "/v1/support" 1, askAt "/v1/support" 2,
    askAt "/v1/chat/completions" 3]

theorem turns_run :
    Lib.Run (traffic twoRoutes) 0 ((traffic twoRoutes).trace 0 turns) 4 := by
  refine Lib.run_trace (traffic twoRoutes) 0 turns fun x hx => ?_
  fin_cases hx <;> exact askAt_served (by decide)

/-- When the requests of the two routes take turns, the first route selects the
    same provider twice in its cycle of two, and the other one never. -/
theorem routes_interfere :
    let tr := (traffic twoRoutes).trace 0 turns
    Lib.Run (traffic twoRoutes) 0 tr 4 ∧
      ticksOf twoRoutes (pairRoute "/v1/chat/completions") tr = [0, 2] ∧
      turns.map (fun h => (h.run twoRoutes).1.attempts.map (·.selected.name)) =
        [["openai"], ["ollama"], ["openai"], ["ollama"]] ∧
      ¬ DistributesByWeight twoRoutes := by
  intro tr
  have hticks : ticksOf twoRoutes (pairRoute "/v1/chat/completions") tr = [0, 2] := by decide
  refine ⟨turns_run, hticks, by decide, fun h => ?_⟩
  have hwindow : [0, 2] <:+: ticksOf twoRoutes (pairRoute "/v1/chat/completions") tr :=
    hticks ▸ List.infix_refl _
  have := h 0 tr 4 turns_run _ pair rfl (by decide) (by decide) _ hwindow rfl
  exact absurd this (by decide)

/-- With two requests to the other route in between, the two requests to the
    first one select both providers. -/
theorem traffic_proportional_apart : Balancer.Proportional pair [0, 3] := by
  have hrun : Lib.Run (traffic twoRoutes) 0 ((traffic twoRoutes).trace 0 apart) 4 := by
    refine Lib.run_trace (traffic twoRoutes) 0 apart fun x hx => ?_
    fin_cases hx <;> exact askAt_served (by decide)
  have hticks : ticksOf twoRoutes (pairRoute "/v1/chat/completions")
      ((traffic twoRoutes).trace 0 apart) = [0, 3] := by decide
  have hpair : (pairRoute "/v1/chat/completions").providers = some pair := rfl
  have h := (traffic_proportional hrun hpair (by decide) (by decide)).2.1
  exact (h [0, 3] (hticks ▸ List.infix_refl _) rfl).2.mpr (by decide) pair (by decide) rfl

end Melis.Router
