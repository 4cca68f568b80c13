import Melis.RouteConfig.Validate
import Melis.Router.SentModel

/-!
# The first selection on a route (`router.rs`, `route_config.rs`)

`validate` accepts a route with a `provider` or a non-empty `providers` list, and
any weights. `extract_providers` prefers the list, also an empty one, and
`select_provider` wants a positive weight among two or more candidates.

* `first_contact`: a selection on the route leads to a contact.
* `findsProvider_iff`: the accepted routes that find a provider.
* `unselectable_routes`: accepted routes that never do.
-/

namespace Melis.Router

/-- Requests to the route find a provider: its list is not empty, every counter
    selects from it, and a request whose first turn finds the circuits closed makes
    a contact, if there is a Google token. -/
structure FindsProvider (route : RouteDefinition) : Prop where
  nonempty : extractProviders route ≠ []
  selects : ∀ counter, ∃ p, (Balancer.selectProvider counter (extractProviders route)).1 = .ok p
  contacts : ∀ (G : Gateway) (req : ChatRequest) (env : ℕ → Surroundings) (shared : Shared),
    G.resolver.resolveRoute G.U req.path "POST" = some route →
    validateChatPayload req.payload = .ok () →
    (∀ p, (opening (G.job req) (env 0) (.start shared) p).available G.config = true) →
    (env 0).token ≠ none →
    ∃ a ∈ (chatCompletions G env req shared).1.attempts, a.contact ≠ none

/-- A provider selected in the first turn is contacted. -/
theorem first_contact {G : Gateway} {req : ChatRequest} {env : ℕ → Surroundings}
    {shared : Shared} {p : WeightedProvider}
    (haccept : validateChatPayload req.payload = .ok ())
    (hselected : (selection (G.job req) (env 0) (.start shared)).1 = .ok p)
    (hclosed : (opening (G.job req) (env 0) (.start shared) p).available G.config = true)
    (htoken : (env 0).token ≠ none) :
    ∃ a ∈ (chatCompletions G env req shared).1.attempts, a.contact ≠ none := by
  obtain ⟨token, htoken⟩ := Option.ne_none_iff_exists'.mp htoken
  obtain ⟨request, hbuild⟩ :=
    exists_buildRequest (sendable_of_accepted G haccept) ((G.job req).endpoint p) token
  rw [← htoken] at hbuild
  obtain ⟨recorded, hattempts⟩ := attempt_contacts hselected hclosed hbuild
  refine ⟨contacting (G.job req) (env 0) (.start shared) p request recorded, ?_,
    Option.some_ne_none _⟩
  rw [chatCompletions_of_accepted G req haccept]
  refine (attempt_start_isPrefix (mem_providers_of_selection hselected).1 env shared).subset ?_
  rw [hattempts]
  exact List.mem_append_right _ List.mem_cons_self

variable {route : RouteDefinition}

/-- A route finds a provider as soon as one can be selected. -/
theorem findsProvider_of_selects
    (h : ∀ counter, ∃ p, (Balancer.selectProvider counter (extractProviders route)).1 = .ok p) :
    FindsProvider route where
  nonempty hnil := by
    obtain ⟨p, hp⟩ := h 0
    rw [hnil] at hp
    cases hp
  selects := h
  contacts G req env shared hroute haccept hclosed htoken := by
    have hproviders : (G.job req).providers = extractProviders route := by
      simp [Gateway.job, Gateway.resolve, resolveRouteConfig, hroute]
    obtain ⟨p, hp⟩ := h ((env 0).beforeSelect shared).counter
    refine first_contact (p := p) haccept ?_ (hclosed p) htoken
    rw [selection, candidates_start, hproviders]
    exact hp

/-- **Finding a provider.** A route of an accepted file finds a provider exactly if
    its `providers`, where it has any, are a single one or have some weight. -/
theorem findsProvider_iff {U : Unicode} {file : RouteConfigFile}
    (hvalid : validate U file = .ok ()) (hroute : route ∈ file.routes) :
    FindsProvider route ↔
      ∀ ps, route.providers = some ps → ps.length = 1 ∨ ∃ p ∈ ps, 0 < p.weight := by
  constructor
  · intro h ps hps
    have hextract : extractProviders route = ps := by rw [extractProviders, hps]
    rw [← Balancer.selectProvider_ok_iff 0 ps, ← hextract]
    exact h.selects 0
  · refine fun h => findsProvider_of_selects fun counter => ?_
    rw [Balancer.selectProvider_ok_iff]
    cases hps : route.providers with
    | some ps =>
      rw [extractProviders, hps]
      exact h ps hps
    | none =>
      -- without a list, the validator has seen a provider
      have hprovided := ((validate_iff.mp hvalid).1 route hroute).provided
      rw [RouteDefinition.hasProvider, RouteDefinition.hasProviders, hps] at hprovided
      cases hp : route.provider with
      | none => simp [hp] at hprovided
      | some p =>
        left
        simp [extractProviders, hps, hp]

/-! ## Example -/

/-- A route with an empty list beside its provider, one whose providers have no
    weight, and one that is in order. -/
def unselectableFile : RouteConfigFile where
  routes := [⟨"/v1/chat/completions", "POST", some "openai", none, some [], none⟩,
    ⟨"/v1/chat/backup", "POST", none, none,
      some [⟨"openai", 0, "gpt-4o"⟩, ⟨"ollama", 0, "llama3"⟩], none⟩,
    ⟨"/v1/chat/local", "POST", some "ollama", none, none, none⟩]

theorem validate_unselectableFile : validate Unicode.ascii unselectableFile = .ok () := by rfl

theorem findsProvider_iff_local :
    FindsProvider ⟨"/v1/chat/local", "POST", some "ollama", none, none, none⟩ :=
  (findsProvider_iff validate_unselectableFile
    (by simp [unselectableFile])).mpr (by simp)

/-- The first two routes are accepted, and never find a provider. -/
theorem unselectable_routes :
    validate Unicode.ascii unselectableFile = .ok () ∧
    ¬ (∀ route ∈ unselectableFile.routes, FindsProvider route) ∧
    ∀ route ∈ unselectableFile.routes.take 2, ∀ counter,
      (Balancer.selectProvider counter (extractProviders route)).1 =
        .error (.serviceUnavailable "No providers available") := by
  refine ⟨validate_unselectableFile, fun h => ?_, ?_⟩
  · exact (h _ List.mem_cons_self).nonempty rfl
  · intro route hroute counter
    simp only [unselectableFile, List.take_succ_cons, List.take_zero, List.mem_cons,
      List.not_mem_nil, or_false] at hroute
    rcases hroute with rfl | rfl <;> rfl

end Melis.Router
