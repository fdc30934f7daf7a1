import PraxisPolicy.HashMaps
import PraxisPolicy.JsonValues
import PraxisPolicy.RouteSelectors
import PraxisPolicy.FirstMaximum

/-!
# Policy documents: routes and inherited sections

Authentication and rate-limit steps of a route accumulate over the global level, the default of the
entity type, the bundles and the route itself.
-/

namespace PraxisPolicy

open HashMaps JsonValues TextScanning FirstMaximum

structure RouteIdentityStep where
  name : String
  configOverride : Option Json

structure RouteIdentityConfig where
  steps : List RouteIdentityStep
  replaceInherited : Bool

structure PolicyGroup where
  authentication : Option RouteIdentityConfig
  rateLimits : Option RouteIdentityConfig

structure GlobalConfig where
  bundles : HashMap String PolicyGroup
  defaults : HashMap String PolicyGroup
  authentication : Option RouteIdentityConfig
  rateLimits : Option RouteIdentityConfig

def GlobalConfig.default : GlobalConfig := ⟨∅, ∅, none, none⟩

structure RouteMeta where
  tags : List String
  scope : Option String

structure RouteEntry where
  tool : Option StringOrList
  resource : Option StringOrList
  prompt : Option StringOrList
  llm : Option StringOrList
  http : Option HttpSelector
  routeMeta : Option RouteMeta
  groups : Option StringOrList
  authentication : Option RouteIdentityConfig
  rateLimits : Option RouteIdentityConfig

def RouteEntry.default : RouteEntry :=
  ⟨none, none, none, none, none, none, none, none, none⟩

def RouteEntry.scope (route : RouteEntry) : Option String := route.routeMeta.bind RouteMeta.scope

inductive DispatchMode where
  | policy | hooks
  deriving DecidableEq, Repr

structure EngineSettings where
  dispatch : DispatchMode
  routeCacheMaxEntries : ℕ

def EngineSettings.default : EngineSettings := ⟨.policy, 10000⟩

structure PluginDeclaration where
  name : String
  hooks : List String

structure PolicyConfig where
  global : GlobalConfig
  plugins : List PluginDeclaration
  groups : HashMap String PolicyGroup
  routes : List RouteEntry
  engineSettings : EngineSettings

def PolicyConfig.isPolicy (config : PolicyConfig) : Bool :=
  config.engineSettings.dispatch == .policy

def entityTool : String := "tool"
def entityResource : String := "resource"
def entityPrompt : String := "prompt"
def entityLlm : String := "llm"
def entityHttp : String := "http"

/-- The policy that governs requests matching no route. -/
def entityNameGlobal : String := "*"

def RouteEntry.matcher (route : RouteEntry) (entityType : String) : Option StringOrList :=
  if entityType = entityTool then route.tool
  else if entityType = entityResource then route.resource
  else if entityType = entityPrompt then route.prompt
  else if entityType = entityLlm then route.llm
  else none

def routeEntityIdentity (route : RouteEntry) : Option (String × List String) :=
  (route.tool.map fun s => (entityTool, s.asNames)) <|>
  (route.resource.map fun s => (entityResource, s.asNames)) <|>
  (route.prompt.map fun s => (entityPrompt, s.asNames)) <|>
  (route.llm.map fun s => (entityLlm, s.asNames)) <|>
  (route.http.map fun s => (entityHttp, httpSelectorNames s))

def declaresHttpRoute (config : PolicyConfig) : Bool :=
  config.routes.any fun route => route.http.isSome

def isGlobSelector : StringOrList → Bool
  | .single pattern => pattern.toList.any fun c => c == '*' || c == '?'
  | .list _ => false

def declaresGlobNamedRoutes (config : PolicyConfig) : Bool :=
  config.routes.any fun route =>
    [route.tool, route.resource, route.prompt, route.llm].any fun s => s.any isGlobSelector

structure RouteQuery where
  entityType : String
  name : String
  path : String
  method : Option String
  scope : Option String

def RouteQuery.named (entityType name : String) (scope : Option String) : RouteQuery :=
  ⟨entityType, name, "", none, scope⟩

def RouteQuery.http (path : String) (method scope : Option String) : RouteQuery :=
  ⟨entityHttp, "", path, method, scope⟩

/-- Where it stands in the list, and the name it resolved to. -/
structure MatchedRoute where
  index : ℕ
  route : RouteEntry
  name : String

/-- A scoped route only answers for its own scope. -/
def scopeBonus (routeScope requestScope : Option String) : Option ℕ :=
  match routeScope, requestScope with
  | none, _ => some 0
  | some declared, some requested =>
    if declared = requested then some specificityScopeMatch else none
  | some _, none => none

def scoreRouteMatch (route : RouteEntry) (query : RouteQuery) : Option (ℕ × String) :=
  if query.entityType = entityHttp then do
    let selector ← route.http
    let score ← scoreHttpMatch selector query.path query.method
    let name ← matchedHttpName selector query.path
    return (score, name)
  else do
    let matcher ← route.matcher query.entityType
    let score ← scoreEntityMatch matcher query.name
    let name ← matchedSelectorName matcher query.name
    return (score, name)

def scoredRoute (query : RouteQuery) (entry : RouteEntry × ℕ) : Option (ℕ × MatchedRoute) := do
  let bonus ← scopeBonus entry.1.scope query.scope
  let (score, name) ← scoreRouteMatch entry.1 query
  return (saturatingAdd score bonus, ⟨entry.2, entry.1, name⟩)

def resolveRoute (config : PolicyConfig) (query : RouteQuery) : Option MatchedRoute :=
  (firstMaximum (config.routes.zipIdx.filterMap (scoredRoute query))).map Prod.snd

def routeStaticTags (route : RouteEntry) : List String :=
  (route.routeMeta.elim [] RouteMeta.tags) ++ (route.groups.elim [] StringOrList.asNames)

inductive SectionSource where
  | global
  | entityDefault (entityType : String)
  | bundle (tag : String)
  | route
  deriving DecidableEq, Repr

def SectionSource.label : SectionSource → String
  | .global => "global"
  | .entityDefault entityType => "global.defaults." ++ entityType
  | .bundle tag => "groups." ++ tag
  | .route => "the route"

structure SectionLayer (T : Type) where
  source : SectionSource
  config : T

/-- In the order they stack. -/
def sectionLayers {T : Type} (config : PolicyConfig) (route : Option RouteEntry)
    (requestEntityType : Option String) (fromGlobal : GlobalConfig → Option T)
    (fromSection : PolicyGroup → Option T) (fromRoute : RouteEntry → Option T) :
    List (SectionLayer T) :=
  let entityType := ((route.bind routeEntityIdentity).map Prod.fst).or requestEntityType
  let global := (fromGlobal config.global).map fun block => ⟨.global, block⟩
  let entityDefault := entityType.bind fun entityType =>
    ((config.global.defaults.lookup entityType).bind fromSection).map fun block =>
      ⟨.entityDefault entityType, block⟩
  let bundles := route.elim [] fun route =>
    -- a name in both spellings is one membership, at its first mention
    (routeStaticTags route).eraseDups.filterMap fun tag =>
      ((config.global.bundles.lookup tag).bind fromSection).map fun block => ⟨.bundle tag, block⟩
  let own := (route.bind fromRoute).map fun block => ⟨.route, block⟩
  global.toList ++ entityDefault.toList ++ bundles ++ own.toList

def authenticationLayers (config : PolicyConfig) (route : Option RouteEntry) :
    List (SectionLayer RouteIdentityConfig) :=
  sectionLayers config route none GlobalConfig.authentication PolicyGroup.authentication
    RouteEntry.authentication

def rateLimitsLayers (config : PolicyConfig) (route : Option RouteEntry)
    (requestEntityType : Option String) : List (SectionLayer RouteIdentityConfig) :=
  sectionLayers config route requestEntityType GlobalConfig.rateLimits PolicyGroup.rateLimits
    RouteEntry.rateLimits

structure ResolvedPlugin where
  name : String
  configOverrides : Option Json

def stackLayers {T S : Type} (replaces : T → Bool) (steps : SectionLayer T → List S)
    (layers : List (SectionLayer T)) : List S :=
  layers.foldl (fun stacked layer =>
    (if replaces layer.config then [] else stacked) ++ steps layer) []

def foldStepLayers (layers : List (SectionLayer RouteIdentityConfig)) : List ResolvedPlugin :=
  (stackLayers RouteIdentityConfig.replaceInherited (fun layer => layer.config.steps)
    layers).map fun step =>
      { name := step.name
        configOverrides := step.configOverride.map fun cfg => .object [("config", cfg)] }

def resolveIdentityPluginsForRoute (config : PolicyConfig) (matched : Option MatchedRoute) :
    List ResolvedPlugin :=
  foldStepLayers (authenticationLayers config (matched.map MatchedRoute.route))

def resolvePluginsForEntity (config : PolicyConfig) : List ResolvedPlugin :=
  if config.isPolicy then [] else config.plugins.map fun plugin => ⟨plugin.name, none⟩

structure RateLimitStepSite where
  index : ℕ
  declaredIn : String
  deriving DecidableEq, Repr

structure RateLimitStepRef where
  source : SectionSource
  index : ℕ
  step : RouteIdentityStep

def rateLimitSectionLabel (source : SectionSource) (routeIndex : Option ℕ) : String :=
  match source, routeIndex with
  | .route, some i => "routes[" ++ toString i ++ "]"
  | source, _ => source.label

def RateLimitStepRef.site (ref : RateLimitStepRef) (matched : Option MatchedRoute) :
    RateLimitStepSite :=
  let routeIndex := if ref.source = .route then matched.map MatchedRoute.index else none
  ⟨ref.index, rateLimitSectionLabel ref.source routeIndex⟩

def rateLimitStepRefsForRoute (config : PolicyConfig) (matched : Option MatchedRoute)
    (requestEntityType : Option String) : List RateLimitStepRef :=
  stackLayers RouteIdentityConfig.replaceInherited
    (fun layer => layer.config.steps.zipIdx.map fun (step, i) => ⟨layer.source, i, step⟩)
    (rateLimitsLayers config (matched.map MatchedRoute.route) requestEntityType)

def declaresRateLimitsAt (config : PolicyConfig) (hook : String) : Bool :=
  let lists (block : Option RouteIdentityConfig) : Bool := block.any fun block =>
    block.steps.any fun step => config.plugins.any fun plugin =>
      plugin.name == step.name && plugin.hooks.any (· == hook)
  lists config.global.rateLimits ||
    config.global.defaults.any (fun _ group => lists group.rateLimits) ||
    config.global.bundles.any (fun _ group => lists group.rateLimits) ||
    config.routes.any fun route => lists route.rateLimits

end PraxisPolicy
