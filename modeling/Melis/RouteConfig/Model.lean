import Melis.Common.Text
import Melis.Config.Basic

/-!
# Route resolution (`route_config.rs`, `router.rs`)

The route table, its lookup by path and method, and what a route resolves to:
the model, the compactor configuration and the providers.
-/

namespace Melis

/-- `TokenOptimizationStrategy` (`route_config.rs` lines 87–92). -/
inductive TokenOptimizationStrategy where
  | adaptiveTrimming
  | slidingWindow
  | semanticGuardedTrimming
  | none
deriving DecidableEq

/-- `TokenOptimizationConfig` (lines 96–113). -/
structure TokenOptimizationConfig where
  strategy : TokenOptimizationStrategy
  maxHistoryMessages : ℕ
  compressAboveTokens : ℕ
  localTokenizer : String
  targetTokenRatio : Option F64
  minFinalTokens : Option ℕ
  criticalMarkers : Option (List String)
deriving DecidableEq

/-- `WeightedProvider` (lines 129–133). -/
structure WeightedProvider where
  name : String
  weight : ℕ
  model : String
deriving DecidableEq

/-- `RouteDefinition` (lines 137–144). -/
structure RouteDefinition where
  path : String
  method : String
  provider : Option String
  model : Option String
  providers : Option (List WeightedProvider)
  tokenOptimization : Option TokenOptimizationConfig
deriving DecidableEq

/-- `CustomProviderDef` (lines 147–152), without the fields no function reads
    (`base_url`, `api_format`). -/
structure CustomProviderDef where
  name : String
deriving DecidableEq

/-- `RouteConfigFile` (lines 155–160). `custom_providers` defaults to none. -/
structure RouteConfigFile where
  routes : List RouteDefinition
  customProviders : List CustomProviderDef := []
deriving DecidableEq

/-- `RouteResolver` (lines 284–288). `lookup` is the map from path and
    upper-case method to the index of a route. -/
structure RouteResolver where
  config : RouteConfigFile
  lookup : String × String → Option ℕ

namespace RouteResolver

/-- `RouteResolver::new` (lines 294–301): a later route replaces an earlier one
    with its path and method. -/
def new (U : Unicode) (config : RouteConfigFile) : RouteResolver where
  config := config
  lookup := config.routes.zipIdx.foldl (fun lookup e =>
    Function.update lookup (e.1.path, U.toUppercase e.1.method) (some e.2)) fun _ => none

/-- `resolve_route` (lines 307–310). -/
def resolveRoute (U : Unicode) (resolver : RouteResolver) (path method : String) :
    Option RouteDefinition :=
  (resolver.lookup (path, U.toUppercase method)).bind fun idx => resolver.config.routes[idx]?

end RouteResolver

/-- The strategy's name (lines 323–330). -/
def TokenOptimizationStrategy.name : TokenOptimizationStrategy → String
  | adaptiveTrimming => "adaptive_trimming"
  | slidingWindow => "sliding_window"
  | semanticGuardedTrimming => "semantic_guarded_trimming"
  | none => "none"

/-- `effective_token_config` (lines 316–348). -/
def effectiveTokenConfig (route : RouteDefinition) (global : CompactorConfig) : CompactorConfig :=
  match route.tokenOptimization with
  | some opt =>
    { tokenThreshold := opt.compressAboveTokens
      maxHistoryMessages := opt.maxHistoryMessages
      stopWords := global.stopWords
      tokenizerName := opt.localTokenizer
      targetTokenRatio := opt.targetTokenRatio.getD global.targetTokenRatio
      minFinalTokens := opt.minFinalTokens.getD global.minFinalTokens
      criticalMarkers := opt.criticalMarkers.getD global.criticalMarkers
      preserveCriticalMarkers := global.preserveCriticalMarkers
      strategy := opt.strategy.name }
  | .none => global

/-- `ResolvedRoute` (`router.rs`). -/
structure ResolvedRoute where
  model : String
  effectiveTokenConfig : CompactorConfig
  providers : List WeightedProvider
deriving DecidableEq

/-- `extract_providers` (`router.rs` lines 879–891). -/
def extractProviders (route : RouteDefinition) : List WeightedProvider :=
  match route.providers with
  | some providers => providers
  | none =>
    match route.provider with
    | some providerName => [⟨providerName, 1, route.model.getD ""⟩]
    | none => []

/-- `resolve_route_config` (`router.rs` lines 834–872). -/
def resolveRouteConfig (U : Unicode) (resolver : RouteResolver) (path method payloadModel : String)
    (globalCompactor : CompactorConfig) : ResolvedRoute :=
  match resolver.resolveRoute U path method with
  | some route =>
    { model := route.model.getD payloadModel
      effectiveTokenConfig := effectiveTokenConfig route globalCompactor
      providers := extractProviders route }
  | none =>
    { model := payloadModel
      effectiveTokenConfig := globalCompactor
      providers := [] }

end Melis
