import Melis.Common.Lines
import Melis.Lib.Rposition
import Melis.RouteConfig.Model

/-!
# Validation of the routes (`route_config.rs`)

`validate` collects the errors of all routes. A route is known by its path and its
upper-case method; the second of two routes with one key is an error.

* `validate_iff`: what is accepted.
* `lookup_new`: the resolver finds the last route with a key.
* `resolveRoute_of_mem`: in an accepted file it finds every route.
* `mem_of_resolveRoute`: what it finds is a route with that path and method.
* `validate_resolveRoute_exact`: the routes of an accepted file with a path and a
  method are the one that is found.
-/

namespace Melis

/-- `RoutesConfigError` (lines 39–69), without the variants that loading and
    validating do not tell apart here (`IoError`, `ParseError`) and the one that
    nothing produces (`InvalidStrategy`). -/
inductive RoutesConfigError where
  | missingField (routeIndex : ℕ) (field : String)
  | invalidProvider (routeIndex : ℕ) (provider : String)
  | duplicateRoute (path method : String) (first second : ℕ)
deriving DecidableEq

/-- `Display` of an error. -/
def RoutesConfigError.display : RoutesConfigError → String
  | missingField routeIndex field => s!"Campo obrigatório ausente na rota {routeIndex}: {field}"
  | invalidProvider routeIndex provider =>
    s!"Provedor inválido '{provider}' na rota {routeIndex}. Valores aceitos: openai, " ++
      "anthropic, google_vertex_ai, oci_genai, ollama ou custom_providers registrados"
  | duplicateRoute path method first second =>
    s!"Rota duplicada: {path} {method} (rotas {first} e {second})"

/-- `KNOWN_PROVIDERS` (lines 24–36). -/
def knownProviders : List String :=
  ["openai", "anthropic", "google_vertex_ai", "vertex_anthropic", "oci_genai", "ollama"]

namespace RouteDefinition

/-- The key of a route in `seen_routes` and in `lookup`. -/
def key (U : Unicode) (route : RouteDefinition) : String × String :=
  (route.path, U.toUppercase route.method)

/-- `has_provider` (lines 210–214). -/
def hasProvider (route : RouteDefinition) : Bool :=
  (route.provider.map fun p => !isBlank p).getD false

/-- `has_providers` (lines 215–219). -/
def hasProviders (route : RouteDefinition) : Bool :=
  (route.providers.map fun ps => !ps.isEmpty).getD false

end RouteDefinition

/-- The name is known, or registered as a custom provider. -/
def isKnownProvider (customNames : List String) (name : String) : Bool :=
  knownProviders.contains name || customNames.contains name

/-- The checks of one route (lines 193–252), without the one for duplicates. -/
def routeErrors (customNames : List String) (idx : ℕ) (route : RouteDefinition) :
    List RoutesConfigError :=
  (if isBlank route.path then [RoutesConfigError.missingField idx "path"] else []) ++
  (if isBlank route.method then [RoutesConfigError.missingField idx "method"] else []) ++
  (if !route.hasProvider && !route.hasProviders then
    [RoutesConfigError.missingField idx "provider ou providers"]
  else []) ++
  (match route.provider with
    | some provider =>
      if !isBlank provider && !isKnownProvider customNames provider then
        [RoutesConfigError.invalidProvider idx provider]
      else []
    | none => []) ++
  ((route.providers.getD []).filter fun wp => !isKnownProvider customNames wp.name).map
    fun wp => RoutesConfigError.invalidProvider idx wp.name

/-- `seen_routes`. -/
abbrev SeenRoutes := String × String → Option ℕ

/-- The loop of `validate` (lines 192–267), from route `idx` on. -/
def validateFrom (U : Unicode) (customNames : List String) :
    ℕ → SeenRoutes → List RouteDefinition → List RoutesConfigError
  | _, _, [] => []
  | idx, seenRoutes, route :: routes =>
    routeErrors customNames idx route ++
      if isBlank route.path || isBlank route.method then
        validateFrom U customNames (idx + 1) seenRoutes routes
      else
        match seenRoutes (route.key U) with
        | some firstIdx =>
          .duplicateRoute route.path route.method firstIdx idx ::
            validateFrom U customNames (idx + 1) seenRoutes routes
        | none =>
          validateFrom U customNames (idx + 1)
            (Function.update seenRoutes (route.key U) (some idx)) routes

/-- `validate` (lines 179–276). -/
def validate (U : Unicode) (config : RouteConfigFile) : Except (List RoutesConfigError) Unit :=
  let customNames := config.customProviders.map (·.name)
  let errors := validateFrom U customNames 0 (fun _ => none) config.routes
  if errors.isEmpty then .ok () else .error errors

/-! ## What is accepted -/

/-- A route without errors of its own. -/
structure RouteDefinition.WellFormed (customNames : List String) (route : RouteDefinition) :
    Prop where
  path : isBlank route.path = false
  method : isBlank route.method = false
  provided : route.hasProvider = true ∨ route.hasProviders = true
  provider : ∀ p, route.provider = some p → isBlank p = true ∨ isKnownProvider customNames p = true
  providers : ∀ ps, route.providers = some ps →
    ∀ wp ∈ ps, isKnownProvider customNames wp.name = true

theorem routeErrors_eq_nil_iff {customNames : List String} {idx : ℕ} {route : RouteDefinition} :
    routeErrors customNames idx route = [] ↔ route.WellFormed customNames := by
  have hprovider : (match route.provider with
      | some provider =>
        if !isBlank provider && !isKnownProvider customNames provider then
          [RoutesConfigError.invalidProvider idx provider]
        else []
      | none => []) = [] ↔
      ∀ p, route.provider = some p → isBlank p = true ∨ isKnownProvider customNames p = true := by
    cases route.provider with
    | none => simp
    | some p => cases h : isBlank p <;> simp [h]
  have hproviders : (((route.providers.getD []).filter fun wp =>
      !isKnownProvider customNames wp.name).map fun wp =>
        RoutesConfigError.invalidProvider idx wp.name) = [] ↔
      ∀ ps, route.providers = some ps → ∀ wp ∈ ps, isKnownProvider customNames wp.name = true := by
    cases route.providers with
    | none => simp
    | some ps => simp
  rw [routeErrors, List.append_eq_nil_iff, List.append_eq_nil_iff, List.append_eq_nil_iff,
    List.append_eq_nil_iff, hprovider, hproviders]
  constructor
  · rintro ⟨⟨⟨⟨hpath, hmethod⟩, hprovided⟩, hprovider⟩, hproviders⟩
    refine ⟨by simpa using hpath, by simpa using hmethod, ?_, hprovider, hproviders⟩
    simp only [Bool.and_eq_true, Bool.not_eq_true', ite_eq_right_iff] at hprovided
    cases h : route.hasProvider
    · exact .inr (by simpa [h] using hprovided)
    · exact .inl rfl
  · rintro ⟨hpath, hmethod, hprovided, hprovider, hproviders⟩
    refine ⟨⟨⟨⟨by simp [hpath], by simp [hmethod]⟩, ?_⟩, hprovider⟩, hproviders⟩
    rcases hprovided with h | h
    · simp [h]
    · simp [h]

theorem validateFrom_eq_nil_iff {U : Unicode} {customNames : List String} {idx : ℕ}
    {seenRoutes : SeenRoutes} {routes : List RouteDefinition} :
    validateFrom U customNames idx seenRoutes routes = [] ↔
      (∀ route ∈ routes, route.WellFormed customNames ∧ seenRoutes (route.key U) = none) ∧
        routes.Pairwise fun r r' => r.key U ≠ r'.key U := by
  induction routes generalizing idx seenRoutes with
  | nil => simp [validateFrom]
  | cons route routes ih =>
    rw [validateFrom, List.append_eq_nil_iff, routeErrors_eq_nil_iff, List.forall_mem_cons,
      List.pairwise_cons]
    by_cases hroute : route.WellFormed customNames
    · rw [if_neg (by simp [hroute.path, hroute.method])]
      cases hseen : seenRoutes (route.key U) with
      | some first => simp
      | none =>
        dsimp only
        rw [ih]
        -- the later routes are new to `seen_routes` and have another key
        have hupdate : ∀ r : RouteDefinition,
            Function.update seenRoutes (route.key U) (some idx) (r.key U) = none ↔
              seenRoutes (r.key U) = none ∧ route.key U ≠ r.key U := by
          intro r
          by_cases hkey : r.key U = route.key U
          · simp [hkey]
          · simp [Function.update_of_ne hkey, Ne.symm hkey]
        simp only [hupdate]
        constructor
        · rintro ⟨-, hall, hpairwise⟩
          exact ⟨⟨⟨hroute, trivial⟩, fun r hr => ⟨(hall r hr).1, (hall r hr).2.1⟩⟩,
            fun r hr => (hall r hr).2.2, hpairwise⟩
        · rintro ⟨⟨-, hall⟩, hkeys, hpairwise⟩
          exact ⟨hroute, fun r hr => ⟨(hall r hr).1, (hall r hr).2, hkeys r hr⟩, hpairwise⟩
    · simp [hroute]

/-- `validate` accepts well-formed routes with distinct keys. -/
theorem validate_iff {U : Unicode} {config : RouteConfigFile} :
    validate U config = .ok () ↔
      (∀ route ∈ config.routes, route.WellFormed (config.customProviders.map (·.name))) ∧
        config.routes.Pairwise fun r r' => r.key U ≠ r'.key U := by
  have herrors := @validateFrom_eq_nil_iff U (config.customProviders.map (·.name)) 0
    (fun _ => none) config.routes
  unfold validate
  dsimp only
  split_ifs with hempty
  · rw [iff_true_left rfl]
    simpa using herrors.mp (List.isEmpty_iff.mp hempty)
  · rw [iff_false_left (by simp)]
    intro h
    exact hempty (List.isEmpty_iff.mpr (herrors.mpr ⟨fun r hr => ⟨h.1 r hr, rfl⟩, h.2⟩))

/-! ## The resolver of an accepted file -/

namespace RouteResolver

/-- The last route with a key is found. -/
theorem lookup_new (U : Unicode) (config : RouteConfigFile) (k : String × String) :
    (RouteResolver.new U config).lookup k =
      Lib.rposition (fun route => route.key U == k) config.routes := by
  obtain ⟨routes, customProviders⟩ := config
  induction routes using List.reverseRecOn with
  | nil => rfl
  | append_singleton routes route ih =>
    rw [Lib.rposition_concat, ← ih]
    show ((routes ++ [route]).zipIdx.foldl (fun (lookup : SeenRoutes) e =>
      Function.update lookup (e.1.key U) (some e.2)) fun _ => none) k = _
    rw [List.zipIdx_append, List.foldl_append]
    show Function.update (RouteResolver.new U ⟨routes, customProviders⟩).lookup (route.key U)
      (some (0 + routes.length)) k = _
    by_cases hkey : route.key U = k
    · simp [hkey]
    · rw [Function.update_of_ne (Ne.symm hkey), if_neg (by simpa using hkey)]

variable {U : Unicode} {config : RouteConfigFile}

/-- In an accepted file every route is found under its path and method. -/
theorem resolveRoute_of_mem (h : validate U config = .ok ()) {route : RouteDefinition}
    (hroute : route ∈ config.routes) {method : String}
    (hmethod : U.toUppercase method = U.toUppercase route.method) :
    (RouteResolver.new U config).resolveRoute U route.path method = some route := by
  obtain ⟨pre, post, hsplit⟩ := List.append_of_mem hroute
  have hlast : Lib.rposition (fun r => r.key U == route.key U) config.routes = some pre.length := by
    refine Lib.rposition_eq_some.mpr ⟨pre, route, post, hsplit, rfl, by simp, fun r hr => ?_⟩
    have hpairwise := (validate_iff.mp h).2
    rw [hsplit, List.pairwise_append, List.pairwise_cons] at hpairwise
    simpa using Ne.symm (hpairwise.2.1.1 r hr)
  rw [resolveRoute, lookup_new, hmethod]
  show (Lib.rposition (fun r => r.key U == route.key U) config.routes).bind _ = _
  rw [hlast]
  show config.routes[pre.length]? = some route
  rw [hsplit, List.getElem?_append_right le_rfl, Nat.sub_self, List.getElem?_cons_zero]

/-- What is found is a route with that path and method. -/
theorem mem_of_resolveRoute {path method : String} {route : RouteDefinition}
    (h : (RouteResolver.new U config).resolveRoute U path method = some route) :
    route ∈ config.routes ∧ route.key U = (path, U.toUppercase method) := by
  rw [resolveRoute, lookup_new] at h
  obtain ⟨idx, hidx, hget⟩ := Option.bind_eq_some_iff.mp h
  obtain ⟨pre, r, post, hsplit, rfl, hkey, -⟩ := Lib.rposition_eq_some.mp hidx
  have hr : config.routes[pre.length]? = some r := by
    rw [hsplit, List.getElem?_append_right le_rfl, Nat.sub_self, List.getElem?_cons_zero]
  obtain rfl : r = route := Option.some.inj (hr.symm.trans hget)
  exact ⟨List.mem_of_getElem? hr, by simpa using hkey⟩

/-- Among routes with distinct keys only the route itself has its key. -/
theorem filter_key_of_mem {routes : List RouteDefinition}
    (hpairwise : routes.Pairwise fun r r' => r.key U ≠ r'.key U) {route : RouteDefinition}
    (hroute : route ∈ routes) : routes.filter (fun r => r.key U == route.key U) = [route] := by
  obtain ⟨pre, post, rfl⟩ := List.append_of_mem hroute
  rw [List.pairwise_append, List.pairwise_cons] at hpairwise
  obtain ⟨-, ⟨hpost, -⟩, hpre⟩ := hpairwise
  have hnone : pre.filter (fun r => r.key U == route.key U) = [] :=
    List.filter_eq_nil_iff.mpr fun r hr => by simpa using hpre r hr route List.mem_cons_self
  have hnone' : post.filter (fun r => r.key U == route.key U) = [] :=
    List.filter_eq_nil_iff.mpr fun r hr => by simpa using Ne.symm (hpost r hr)
  rw [List.filter_append, hnone, List.filter_cons_of_pos (by simp), hnone', List.nil_append]

/-- `validate` accepts well-formed routes with distinct keys, and in an accepted file the
    routes with a path and a method are the one that `resolve_route` finds: at most one,
    and none exactly when it finds none. -/
theorem validate_resolveRoute_exact :
    (validate U config = .ok () ↔
      (∀ route ∈ config.routes, route.WellFormed (config.customProviders.map (·.name))) ∧
        config.routes.Pairwise fun r r' => r.key U ≠ r'.key U) ∧
    (validate U config = .ok () → ∀ path method,
      config.routes.filter (fun route =>
          route.path == path && U.toUppercase route.method == U.toUppercase method) =
        ((RouteResolver.new U config).resolveRoute U path method).toList) := by
  refine ⟨validate_iff, fun hvalid path method => ?_⟩
  have hkey : (fun route : RouteDefinition =>
      route.path == path && U.toUppercase route.method == U.toUppercase method) =
      fun route => route.key U == (path, U.toUppercase method) := rfl
  rw [hkey]
  cases hfound : (RouteResolver.new U config).resolveRoute U path method with
  | some route =>
    obtain ⟨hroute, hkey⟩ := mem_of_resolveRoute hfound
    rw [← hkey, filter_key_of_mem (validate_iff.mp hvalid).2 hroute, Option.toList_some]
  | none =>
    rw [Option.toList_none, List.filter_eq_nil_iff]
    intro route hroute hkey
    obtain ⟨rfl, hmethod⟩ : route.path = path ∧ U.toUppercase route.method = U.toUppercase method :=
      by simpa [RouteDefinition.key] using hkey
    rw [resolveRoute_of_mem hvalid hroute hmethod.symm] at hfound
    cases hfound

end RouteResolver

end Melis
