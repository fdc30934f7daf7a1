import PraxisPolicy.ExtensionRecords
import PraxisPolicy.PolicyDocuments
import PraxisPolicy.RequestPaths

/-!
# Which handlers a request is dispatched to

An annotation for the resolved name is the whole answer.  Otherwise policy mode reads the structural
lists, and those that are not rate limits go through a cache.
-/

namespace PraxisPolicy

open HashMaps JsonValues TextScanning

structure HookEntry where
  pluginId : ℕ
  pluginName : String
  handler : ℕ
  deriving DecidableEq, Repr

structure AnnotationKey where
  entityType : String
  entityName : String
  scope : Option String
  hookName : String
  deriving DecidableEq, Repr

structure RouteCacheKey where
  entityType : String
  resolvedName : String
  hookName : String
  scope : Option String
  deriving DecidableEq, Repr

structure RateLimitOverride where
  handlers : List (String × HookEntry)

def RateLimitOverride.entryFor (override : RateLimitOverride) (hookName : String) :
    Option HookEntry :=
  (override.handlers.find? fun handler => handler.1 == hookName).map Prod.snd

structure RuntimeSnapshot where
  hookIndex : HashMap String (List HookEntry)
  policyConfig : Option PolicyConfig
  routeCacheMaxEntries : ℕ
  routeAnnotations : HashMap AnnotationKey HookEntry
  declaresPreIdentityRateLimits : Bool
  declaresPostIdentityRateLimits : Bool
  rateLimitOverrides : HashMap RateLimitStepSite RateLimitOverride
  declaresGlobNamedRoutes : Bool

def hookIdentityResolve : String := "identity.resolve"
def hookRatelimitPreIdentity : String := "ratelimit.pre_identity"
def hookRatelimitPostIdentity : String := "ratelimit.post_identity"

/-- No route is annotated yet. -/
def snapshotFromConfig (hookIndex : HashMap String (List HookEntry)) (config : PolicyConfig)
    (rateLimitOverrides : HashMap RateLimitStepSite RateLimitOverride) : RuntimeSnapshot where
  hookIndex := hookIndex
  policyConfig := some config
  routeCacheMaxEntries := config.engineSettings.routeCacheMaxEntries
  routeAnnotations := ∅
  declaresPreIdentityRateLimits :=
    config.isPolicy && declaresRateLimitsAt config hookRatelimitPreIdentity
  declaresPostIdentityRateLimits :=
    config.isPolicy && declaresRateLimitsAt config hookRatelimitPostIdentity
  rateLimitOverrides := rateLimitOverrides
  declaresGlobNamedRoutes := declaresGlobNamedRoutes config

def RuntimeSnapshot.annotateRoute (snapshot : RuntimeSnapshot) (key : AnnotationKey)
    (entry : HookEntry) : RuntimeSnapshot :=
  { snapshot with routeAnnotations := snapshot.routeAnnotations.insert key entry }

def RuntimeSnapshot.routingConfig (snapshot : RuntimeSnapshot) : Option PolicyConfig :=
  snapshot.policyConfig.filter PolicyConfig.isPolicy

def RuntimeSnapshot.entriesForHook (snapshot : RuntimeSnapshot) (hookName : String) :
    List HookEntry :=
  (snapshot.hookIndex.lookup hookName).getD []

inductive RateLimitStage where
  | preIdentity | postIdentity
  deriving DecidableEq, Repr

inductive StructuralList where
  | authentication
  | rateLimits (stage : RateLimitStage)
  deriving DecidableEq, Repr

def StructuralList.forHook (hookName : String) : Option StructuralList :=
  if hookName = hookIdentityResolve then some .authentication
  else if hookName = hookRatelimitPreIdentity then some (.rateLimits .preIdentity)
  else if hookName = hookRatelimitPostIdentity then some (.rateLimits .postIdentity)
  else none

def RuntimeSnapshot.hasNothingToDispatch (snapshot : RuntimeSnapshot) (hookName : String) : Bool :=
  let listsRateLimits := match StructuralList.forHook hookName with
    | some (.rateLimits .preIdentity) => snapshot.declaresPreIdentityRateLimits
    | some (.rateLimits .postIdentity) => snapshot.declaresPostIdentityRateLimits
    | _ => false
  (snapshot.entriesForHook hookName).isEmpty && decide (snapshot.routeAnnotations = ∅) &&
    !listsRateLimits

def declaresAPolicy (config : PolicyConfig) (snapshot : RuntimeSnapshot) : Bool :=
  !config.routes.isEmpty || decide (config.groups.keys ≠ ∅) ||
    decide (config.global.bundles.keys ≠ ∅) || decide (config.global.defaults.keys ≠ ∅) ||
    config.global.authentication.isSome || config.global.rateLimits.isSome ||
    decide (snapshot.routeAnnotations ≠ ∅)

structure MetaExtension where
  entityType : Option String
  entityName : Option String
  scope : Option String
  deriving DecidableEq, Repr

structure RouteRequest where
  hookName : String
  hostMeta : Option MetaExtension
  http : Option HttpExtension

def RouteRequest.entityType (request : RouteRequest) : Option String :=
  request.hostMeta.bind MetaExtension.entityType

def RouteRequest.scope (request : RouteRequest) : Option String :=
  request.hostMeta.bind MetaExtension.scope

def RouteRequest.isHttp (request : RouteRequest) : Bool :=
  request.entityType == some entityHttp

/-- What precedes a `?`. -/
def matchPath (request : RouteRequest) : Option String :=
  (request.http.bind HttpExtension.path).map fun path =>
    String.ofList (path.toList.takeWhile (· != '?'))

inductive RouteResolutionError where
  | unreadablePath (cause : PathError)
  | unidentifiedRequest
  | rateLimitUnavailable
  deriving DecidableEq, Repr

/-- `none` for a path that cannot be read, if an `http:` route is declared. -/
def resolveHttp (snapshot : RuntimeSnapshot) (request : RouteRequest) :
    Except RouteResolutionError (Option MatchedRoute) :=
  if !request.isHttp then .ok none
  else
    let matched := do
      let config ← snapshot.routingConfig
      let path ← matchPath request
      resolveRoute config (.http path (request.http.bind HttpExtension.method) request.scope)
    match (matchPath request).map normalizeMatchPath with
    | some (.error cause) =>
      if snapshot.routingConfig.any declaresHttpRoute then .error (.unreadablePath cause)
      else .ok matched
    | _ => .ok matched

def resolvedName (request : RouteRequest) (httpMatched : Option MatchedRoute) : Option String :=
  if request.isHttp then some (httpMatched.elim entityNameGlobal MatchedRoute.name)
  else request.hostMeta.bind MetaExtension.entityName

def routeQuery (request : RouteRequest) : Option RouteQuery :=
  if request.isHttp then
    (matchPath request).map fun path =>
      .http path (request.http.bind HttpExtension.method) request.scope
  else do
    let entityType ← request.entityType
    let name ← request.hostMeta.bind MetaExtension.entityName
    return .named entityType name request.scope

def selectedRoute (snapshot : RuntimeSnapshot) (request : RouteRequest) : Option MatchedRoute :=
  snapshot.routingConfig.bind fun config => (routeQuery request).bind (resolveRoute config)

def requestSections (snapshot : RuntimeSnapshot) (request : RouteRequest) :
    Option (List (SectionLayer RouteIdentityConfig) × List (SectionLayer RouteIdentityConfig)) :=
  snapshot.routingConfig.map fun config =>
    let route := (selectedRoute snapshot request).map MatchedRoute.route
    (authenticationLayers config route, rateLimitsLayers config route request.entityType)

def annotationFor (snapshot : RuntimeSnapshot) (entityType entityName : String)
    (scope : Option String) (hookName : String) : Option HookEntry :=
  (scope.bind fun s =>
    snapshot.routeAnnotations.lookup ⟨entityType, entityName, some s, hookName⟩).or
  (snapshot.routeAnnotations.lookup ⟨entityType, entityName, none, hookName⟩)

/-- Under its name, or under the glob that matches it. -/
def annotatedEntry (snapshot : RuntimeSnapshot) (entityType entityName : String)
    (scope : Option String) (hookName : String) : Option HookEntry :=
  if snapshot.routeAnnotations = ∅ then none
  else (annotationFor snapshot entityType entityName scope hookName).or <|
    if snapshot.declaresGlobNamedRoutes then do
      let config ← snapshot.routingConfig
      let matched ← resolveRoute config (.named entityType entityName scope)
      if matched.name = entityName then none
      else annotationFor snapshot entityType matched.name scope hookName
    else none

section Lists

/-- The conditions of a plugin in hook mode. -/
class EngineHost where
  passesConditions : HookEntry → RouteRequest → Bool

/-- A new plugin with an id of its own. -/
structure OverrideInstance where
  pluginId : ℕ
  handler : ℕ

/-- By the place of the override in its list.  Nothing comes of it without a factory, or when the
factory fails, makes no handler for the hook, or the plugin does not initialize. -/
abbrev Making := ℕ → Option OverrideInstance

def createOverrideInstance (base : HookEntry) (made : Option OverrideInstance) : Option HookEntry :=
  made.map fun new => ⟨new.pluginId, base.pluginName, new.handler⟩

/-- Whether the list overrides the plugin's config. -/
structure ResolvedStep where
  entry : HookEntry
  overridden : Bool
  deriving DecidableEq, Repr

def resolvedSteps (entries : List HookEntry) (resolved : List ResolvedPlugin) : List ResolvedStep :=
  resolved.filterMap fun plugin =>
    (entries.find? fun e => e.pluginName == plugin.name).map fun entry =>
      ⟨entry, plugin.configOverrides.isSome⟩

def resolvedEntries (made : Making) (steps : List ResolvedStep) : List HookEntry :=
  steps.mapIdx fun i step =>
    if step.overridden then (createOverrideInstance step.entry (made i)).getD step.entry
    else step.entry

variable [EngineHost]

omit [EngineHost] in
/-- In `rate_limits:` order; `selected` are those found so far. -/
def rateLimitEntries (snapshot : RuntimeSnapshot) (config : PolicyConfig)
    (entries : List HookEntry) (matched : Option MatchedRoute) (hookName : String)
    (selected : List HookEntry) :
    List RateLimitStepRef → Except RouteResolutionError (List HookEntry)
  | [] => .ok selected
  | ref :: refs =>
    let declaresThisStage := (config.plugins.find? fun plugin =>
      plugin.name == ref.step.name).any fun plugin => plugin.hooks.any (· == hookName)
    if !declaresThisStage then
      rateLimitEntries snapshot config entries matched hookName selected refs
    else if ref.step.configOverride.isSome then
      match (snapshot.rateLimitOverrides.lookup (ref.site matched)).bind (·.entryFor hookName) with
      | none => .error .rateLimitUnavailable
      | some entry =>
        rateLimitEntries snapshot config entries matched hookName (selected ++ [entry]) refs
    else
      match entries.find? fun e => e.pluginName == ref.step.name with
      | none => .error .rateLimitUnavailable
      | some base =>
        -- a base limiter runs once however often the list names it
        if selected.any fun done => done.pluginId == base.pluginId then
          rateLimitEntries snapshot config entries matched hookName selected refs
        else rateLimitEntries snapshot config entries matched hookName (selected ++ [base]) refs

/-- Settled, or up to what the cache holds for a key. -/
inductive Resolution where
  | settled (result : Except RouteResolutionError (List HookEntry))
  | cached (key : RouteCacheKey) (steps : List ResolvedStep)
  deriving DecidableEq

def structuralResolution (snapshot : RuntimeSnapshot) (config : PolicyConfig)
    (hookName entityType name : String) (scope : Option String)
    (httpMatched : Option MatchedRoute) : Resolution :=
  let entries := snapshot.entriesForHook hookName
  let matched :=
    if entityType = entityHttp then httpMatched
    else resolveRoute config (.named entityType name scope)
  let limits (matched : Option MatchedRoute) (requestEntityType : String) :=
    rateLimitEntries snapshot config entries matched hookName []
      (rateLimitStepRefsForRoute config matched (some requestEntityType))
  let key := ⟨entityType, name, hookName, scope⟩
  match StructuralList.forHook hookName with
  | some (.rateLimits .preIdentity) => .settled (limits httpMatched entityHttp)
  | some (.rateLimits .postIdentity) => .settled (limits matched entityType)
  | some .authentication => .cached key
      (resolvedSteps entries (resolveIdentityPluginsForRoute config matched))
  | none => .cached key (resolvedSteps entries (resolvePluginsForEntity config))

def resolveEntries (snapshot : RuntimeSnapshot) (request : RouteRequest) : Resolution :=
  if snapshot.hasNothingToDispatch request.hookName then .settled (.ok [])
  else match resolveHttp snapshot request with
    | .error cause => .settled (.error cause)
    | .ok httpMatched =>
      match request.entityType, resolvedName request httpMatched with
      | some entityType, some name =>
        match annotatedEntry snapshot entityType name request.scope request.hookName with
        | some entry => .settled (.ok [entry])
        | none => match snapshot.routingConfig with
          | none => .settled (.ok ((snapshot.entriesForHook request.hookName).filter fun e =>
              EngineHost.passesConditions e request))
          | some config => structuralResolution snapshot config request.hookName entityType name
              request.scope httpMatched
      | _, _ => match snapshot.routingConfig with
        | none => .settled (.ok ((snapshot.entriesForHook request.hookName).filter fun e =>
            EngineHost.passesConditions e request))
        | some config =>
          if declaresAPolicy config snapshot then .settled (.error .unidentifiedRequest)
          else .settled (.ok (snapshot.entriesForHook request.hookName))

def Resolution.uncached (made : Making) :
    Resolution → Except RouteResolutionError (List HookEntry)
  | .settled result => result
  | .cached _ steps => .ok (resolvedEntries made steps)

end Lists

end PraxisPolicy
