import Melis.RouteConfig.Reload

/-!
# Registered paths (`router.rs`)

`build_router` registers the paths of the routes once, when the gateway starts, and
always for `POST`. Requests are resolved against the routes as they are later, after
any number of reloads. axum dispatches exactly the paths and methods registered.

* `dispatch_buildRouter`: what reaches `chat_completions_handler`.
* `served_iff`: the active routes that are served.
* `added_route_unserved`: a route that a reload adds is not.
-/

namespace Melis.Router

open RouteConfig

/-- The handlers of `build_router` (lines 72–92). -/
inductive Handler where
  | metrics
  | healthz
  | readyz
  | embeddings
  | chatCompletions
deriving DecidableEq

/-- One `.route(path, method(handler))`. -/
structure Registration where
  path : String
  method : String
  handler : Handler
deriving DecidableEq

/-- The loop over the routes (lines 85–89), with the paths registered before and
    afterwards. -/
def registerRoutes : List String → List RouteDefinition → List Registration × List String
  | registeredPaths, [] => ([], registeredPaths)
  | registeredPaths, route :: routes =>
    if registeredPaths.contains route.path then registerRoutes registeredPaths routes
    else
      let (registrations, paths) := registerRoutes (route.path :: registeredPaths) routes
      (⟨route.path, "POST", .chatCompletions⟩ :: registrations, paths)

/-- `build_router` (lines 69–117), without the layers. -/
def buildRouter (resolver : RouteResolver) : List Registration :=
  let (registrations, registeredPaths) :=
    registerRoutes ["/v1/embeddings"] resolver.config.routes
  [⟨"/metrics", "GET", .metrics⟩, ⟨"/healthz", "GET", .healthz⟩, ⟨"/readyz", "GET", .readyz⟩,
    ⟨"/v1/embeddings", "POST", .embeddings⟩] ++ registrations ++
  if registeredPaths.contains "/v1/chat/completions" then []
  else [⟨"/v1/chat/completions", "POST", .chatCompletions⟩]

/-- The handler that axum calls for a path and a method. -/
def dispatch (router : List Registration) (path method : String) : Option Handler :=
  (router.find? fun r => r.path == path && r.method == method).map (·.handler)

/-! ## What is registered -/

theorem mem_registerRoutes {registeredPaths : List String} {routes : List RouteDefinition}
    {r : Registration} :
    r ∈ (registerRoutes registeredPaths routes).1 ↔
      r.method = "POST" ∧ r.handler = .chatCompletions ∧ r.path ∉ registeredPaths ∧
        r.path ∈ routes.map (·.path) := by
  obtain ⟨path, method, handler⟩ := r
  induction routes generalizing registeredPaths with
  | nil => simp [registerRoutes]
  | cons route routes ih =>
    rw [registerRoutes, List.map_cons, List.mem_cons]
    split_ifs with hold
    · rw [ih]
      have hpath : route.path ∈ registeredPaths := by simpa using hold
      constructor
      · rintro ⟨hmethod, hhandler, hnew, hmem⟩
        exact ⟨hmethod, hhandler, hnew, .inr hmem⟩
      · rintro ⟨hmethod, hhandler, hnew, rfl | hmem⟩
        · exact absurd hpath hnew
        · exact ⟨hmethod, hhandler, hnew, hmem⟩
    · have hpath : route.path ∉ registeredPaths := by simpa using hold
      rw [List.mem_cons, ih, Registration.mk.injEq, List.mem_cons, not_or]
      constructor
      · rintro (⟨rfl, rfl, rfl⟩ | ⟨hmethod, hhandler, ⟨-, hnew⟩, hmem⟩)
        · exact ⟨rfl, rfl, hpath, .inl rfl⟩
        · exact ⟨hmethod, hhandler, hnew, .inr hmem⟩
      · rintro ⟨rfl, rfl, hnew, hmem⟩
        by_cases hsame : path = route.path
        · exact .inl ⟨hsame, rfl, rfl⟩
        · exact .inr ⟨rfl, rfl, ⟨hsame, hnew⟩, hmem.resolve_left hsame⟩

theorem mem_registeredPaths {registeredPaths : List String} {routes : List RouteDefinition}
    {path : String} :
    path ∈ (registerRoutes registeredPaths routes).2 ↔
      path ∈ registeredPaths ∨ path ∈ routes.map (·.path) := by
  induction routes generalizing registeredPaths with
  | nil => simp [registerRoutes]
  | cons route routes ih =>
    rw [registerRoutes, List.map_cons, List.mem_cons]
    split_ifs with hold
    · rw [ih]
      have hpath : route.path ∈ registeredPaths := by simpa using hold
      constructor
      · exact Or.imp_right .inr
      · rintro (h | rfl | h)
        · exact .inl h
        · exact .inl hpath
        · exact .inr h
    · rw [ih, List.mem_cons]
      tauto

variable {resolver : RouteResolver} {path method : String} {r : Registration}

/-- The paths whose `POST` requests reach `chat_completions_handler`. -/
def ChatPath (resolver : RouteResolver) (path : String) : Prop :=
  path ≠ "/v1/embeddings" ∧
    (path = "/v1/chat/completions" ∨ path ∈ resolver.config.routes.map (·.path))

theorem mem_buildRouter (hhandler : r.handler = .chatCompletions) :
    r ∈ buildRouter resolver ↔ r.method = "POST" ∧ ChatPath resolver r.path := by
  obtain ⟨path, method, handler⟩ := r
  obtain rfl : handler = .chatCompletions := hhandler
  have hroutes := @mem_registerRoutes ["/v1/embeddings"] resolver.config.routes
    ⟨path, method, .chatCompletions⟩
  have hdefault := @mem_registeredPaths ["/v1/embeddings"] resolver.config.routes
    "/v1/chat/completions"
  simp only [List.mem_singleton, true_and] at hroutes
  have hne : ¬ "/v1/chat/completions" = "/v1/embeddings" := by decide
  simp only [List.mem_singleton, hne, false_or] at hdefault
  rw [buildRouter, List.mem_append, List.mem_append, hroutes, ChatPath]
  dsimp only
  split_ifs with hpresent
  all_goals rw [List.contains_iff_mem, hdefault] at hpresent
  · simp only [List.mem_cons, Registration.mk.injEq, reduceCtorEq, and_false, List.not_mem_nil,
      or_false, false_or]
    constructor
    · rintro ⟨hmethod, hnew, hmem⟩
      exact ⟨hmethod, hnew, .inr hmem⟩
    · rintro ⟨hmethod, hnew, rfl | hmem⟩
      · exact ⟨hmethod, hnew, hpresent⟩
      · exact ⟨hmethod, hnew, hmem⟩
  · simp only [List.mem_cons, Registration.mk.injEq, reduceCtorEq, and_false, List.not_mem_nil,
      or_false, false_or, and_true]
    constructor
    · rintro (⟨hmethod, hnew, hmem⟩ | ⟨rfl, hmethod⟩)
      · exact ⟨hmethod, hnew, .inr hmem⟩
      · exact ⟨hmethod, hne, .inl rfl⟩
    · rintro ⟨hmethod, hnew, rfl | hmem⟩
      · exact .inr ⟨rfl, hmethod⟩
      · exact .inl ⟨hmethod, hnew, hmem⟩

/-- What is not registered for the chat handler is one of the fixed paths. -/
theorem handler_of_mem (h : r ∈ buildRouter resolver) (hmethod : r.method = "POST")
    (hpath : r.path ≠ "/v1/embeddings") : r.handler = .chatCompletions := by
  rw [buildRouter, List.mem_append, List.mem_append] at h
  rcases h with (h | h) | h
  · simp only [List.mem_cons, List.not_mem_nil, or_false] at h
    rcases h with rfl | rfl | rfl | rfl
    · exact absurd hmethod (by decide)
    · exact absurd hmethod (by decide)
    · exact absurd hmethod (by decide)
    · exact absurd rfl hpath
  · exact (mem_registerRoutes.mp h).2.1
  · split_ifs at h
    · cases h
    · rw [List.mem_singleton.mp h]

theorem dispatch_buildRouter :
    dispatch (buildRouter resolver) path method = some .chatCompletions ↔
      method = "POST" ∧ ChatPath resolver path := by
  rw [dispatch, Option.map_eq_some_iff]
  constructor
  · rintro ⟨r, hfind, hhandler⟩
    have hkey := List.find?_some hfind
    rw [Bool.and_eq_true, beq_iff_eq, beq_iff_eq] at hkey
    obtain ⟨rfl, rfl⟩ := hkey
    exact (mem_buildRouter hhandler).mp (List.mem_of_find?_eq_some hfind)
  · rintro ⟨rfl, hpath⟩
    have hmem : ⟨path, "POST", .chatCompletions⟩ ∈ buildRouter resolver :=
      (mem_buildRouter rfl).mpr ⟨rfl, hpath⟩
    obtain ⟨r, hfind⟩ := Option.isSome_iff_exists.mp
      (List.find?_isSome.mpr ⟨_, hmem, by simp⟩ :
        ((buildRouter resolver).find? fun r => r.path == path && r.method == "POST").isSome)
    have hkey := List.find?_some hfind
    rw [Bool.and_eq_true, beq_iff_eq, beq_iff_eq] at hkey
    exact ⟨r, hfind, handler_of_mem (List.mem_of_find?_eq_some hfind) hkey.2
      (hkey.1.symm ▸ hpath.1)⟩

/-! ## What is served -/

/-- A request with the route's path and method reaches `chat_completions_handler`,
    which resolves it to the route's providers and model. Methods are compared in
    upper case; the handler resolves every request as a `POST`. -/
structure Served (U : Unicode) (router : List Registration) (resolver : RouteResolver)
    (route : RouteDefinition) : Prop where
  reaches : ∃ method, U.toUppercase method = U.toUppercase route.method ∧
    dispatch router route.path method = some .chatCompletions
  resolved : ∀ payloadModel globalCompactor,
    let resolved := resolveRouteConfig U resolver route.path "POST" payloadModel globalCompactor
    resolved.providers = extractProviders route ∧
      resolved.model = route.model.getD payloadModel

section Runs

variable {Contents : Type*} {U : Unicode} {loadRoutes : Contents → Option RouteConfigFile}
  {initial : Contents} {m₀ m : RouteConfigManager Contents}
  {tr : List (Lib.Step (RouteConfigManager Contents) (Event Contents))} {route : RouteDefinition}

/-- The active routes are those of a valid file. -/
theorem exists_file_of_run (hnew : RouteConfigManager.new U loadRoutes initial = some m₀)
    (hrun : Lib.Run (reloadLoop U loadRoutes) m₀ tr m) :
    ∃ file, validate U file = .ok () ∧ m.config = RouteResolver.new U file := by
  obtain ⟨contents, -, file, -, hvalid, hconfig⟩ := (inv_run hnew hrun).built
  exact ⟨file, hvalid, hconfig⟩

/-- **Served routes.** After any run of reloads, an active route other than
    `/v1/embeddings` is served exactly if its method is `POST` and its path was that
    of a route when the gateway started, or is `/v1/chat/completions`. -/
theorem served_iff (hnew : RouteConfigManager.new U loadRoutes initial = some m₀)
    (hrun : Lib.Run (reloadLoop U loadRoutes) m₀ tr m)
    (hroute : route ∈ m.config.config.routes) (hpath : route.path ≠ "/v1/embeddings") :
    Served U (buildRouter m₀.config) m.config route ↔
      U.toUppercase "POST" = U.toUppercase route.method ∧
        (route.path = "/v1/chat/completions" ∨
          route.path ∈ m₀.config.config.routes.map (·.path)) := by
  constructor
  · rintro ⟨⟨method, hmethod, hdispatch⟩, -⟩
    obtain ⟨rfl, hchat⟩ := dispatch_buildRouter.mp hdispatch
    exact ⟨hmethod, hchat.2⟩
  · rintro ⟨hmethod, hregistered⟩
    refine ⟨⟨"POST", hmethod, dispatch_buildRouter.mpr ⟨rfl, hpath, hregistered⟩⟩, ?_⟩
    intro payloadModel globalCompactor
    obtain ⟨file, hvalid, hconfig⟩ := exists_file_of_run hnew hrun
    rw [hconfig] at hroute
    rw [hconfig, resolveRouteConfig, RouteResolver.resolveRoute_of_mem hvalid hroute hmethod]
    exact ⟨rfl, rfl⟩

end Runs

/-! ## Example -/

/-- The routes of `started` and one for a new provider. -/
def addedRouteFile : RouteConfigFile where
  routes := [⟨"/v1/chat/completions", "POST", some "openai", none, none, none⟩,
    ⟨"/v1/chat/my-provider", "POST", some "my-new-provider", some "model-a", none, none⟩]
  customProviders := [⟨"my-new-provider"⟩]

/-- The file is changed, and reloaded. -/
def addRoute : List (Event RouteConfigFile) :=
  [.write addedRouteFile, .trySend, .recv, .wake, .tryRecv, .load, .store]

/-- The manager afterwards. -/
def reloaded : RouteConfigManager RouteConfigFile :=
  addRoute.foldl (reloadLoop Unicode.ascii some).step started

theorem run_reloaded : Lib.Run (reloadLoop Unicode.ascii some) started
    ((reloadLoop Unicode.ascii some).trace started addRoute) reloaded := by
  refine Lib.run_trace _ _ _ ?_
  simp [addRoute, Lib.System.trace, reloadLoop, started, channelCapacity]

/-- The route that is there from the start is served after the reload. -/
theorem served_iff_reloaded : Served Unicode.ascii (buildRouter started.config) reloaded.config
    ⟨"/v1/chat/completions", "POST", some "openai", none, none, none⟩ :=
  (served_iff new_started run_reloaded List.mem_cons_self (by decide)).mpr ⟨rfl, .inl rfl⟩

/-- The route that the reload adds is active, and not served. -/
theorem added_route_unserved :
    RouteConfigManager.new Unicode.ascii some (oneRouteFile "openai") = some started ∧
    Lib.Run (reloadLoop Unicode.ascii some) started
      ((reloadLoop Unicode.ascii some).trace started addRoute) reloaded ∧
    ¬ ∀ route ∈ reloaded.config.config.routes, route.path ≠ "/v1/embeddings" →
      Served Unicode.ascii (buildRouter started.config) reloaded.config route := by
  refine ⟨rfl, run_reloaded, fun h => ?_⟩
  have hserved := h ⟨"/v1/chat/my-provider", "POST", some "my-new-provider", some "model-a",
    none, none⟩ (List.mem_cons_of_mem _ List.mem_cons_self) (by decide)
  obtain ⟨⟨method, -, hdispatch⟩, -⟩ := hserved
  obtain ⟨-, -, hregistered⟩ := dispatch_buildRouter.mp hdispatch
  exact absurd hregistered (by decide)

end Melis.Router
