import PraxisPolicy.RouteCaching

/-!
# What validation promises about routes

In policy mode each route declares exactly one selector, and no two contribute one name under the
same entity type and scope.
-/

namespace PraxisPolicy

open HashMaps

def selectorKeys : List String := [entityTool, entityResource, entityPrompt, entityLlm, entityHttp]

def declaredSelectors (route : RouteEntry) : List String :=
  [(entityTool, route.tool.isSome), (entityResource, route.resource.isSome),
    (entityPrompt, route.prompt.isSome), (entityLlm, route.llm.isSome),
    (entityHttp, route.http.isSome)].filterMap fun (name, present) =>
      if present then some name else none

/-- By entity type and scope. -/
abbrev ClaimedNames := HashMap (String × Option String × String) ℕ

def claimNames (i : ℕ) (entityType : String) (scope : Option String) (claimed : ClaimedNames) :
    List String → Except String ClaimedNames
  | [] => .ok claimed
  | name :: names =>
    match claimed.lookup (entityType, scope, name) with
    | some first =>
      if first = i then claimNames i entityType scope claimed names
      else .error ("routes " ++ toString first ++ " and " ++ toString i ++
        " both resolve to the " ++ entityType ++ " name '" ++ name ++
        "'; two routes cannot share a name within one entity type and scope")
    | none =>
      claimNames i entityType scope (claimed.insert (entityType, scope, name) i) names

def validateAuthentication (config : PolicyConfig) (context : String)
    (authentication : Option RouteIdentityConfig) : Except String Unit :=
  match authentication.bind fun block => block.steps.find? fun step =>
      !config.plugins.any fun plugin => plugin.name == step.name with
  | some step =>
    .error (context ++ " authentication references unknown plugin '" ++ step.name ++ "'")
  | none => .ok ()

def validateGroups (config : PolicyConfig) (i : ℕ) (route : RouteEntry) : Except String Unit :=
  match route.groups.bind fun groups => groups.asNames.find? fun name =>
      (config.global.bundles.lookup name).isNone with
  | some name => .error ("route " ++ toString i ++ " joins unknown group '" ++ name ++ "'")
  | none => .ok ()

def claimRoute (claimed : ClaimedNames) (route : RouteEntry) (i : ℕ) :
    Except String ClaimedNames :=
  match routeEntityIdentity route with
  | some (entityType, names) => claimNames i entityType route.scope claimed names
  | none => .ok claimed

def validateRoute (config : PolicyConfig) (claimed : ClaimedNames) (route : RouteEntry) (i : ℕ) :
    Except String ClaimedNames :=
  match declaredSelectors route with
  | [] => .error ("route " ++ toString i ++ " has no entity matcher (need one of " ++
      String.intercalate ", " selectorKeys ++ ")")
  | [_] =>
    match route.http.bind HttpSelector.defect with
    | some defect => .error ("route " ++ toString i ++ " " ++ defect)
    | none => do
      let claimed ← claimRoute claimed route i
      validateGroups config i route
      validateAuthentication config ("route " ++ toString i) route.authentication
      return claimed
  | declared => .error ("route " ++ toString i ++ " has multiple entity matchers (" ++
      String.intercalate ", " declared ++ "); need exactly one of " ++
      String.intercalate ", " selectorKeys)

def walkRoutes (config : PolicyConfig) (claimed : ClaimedNames) :
    List (RouteEntry × ℕ) → Except String ClaimedNames
  | [] => .ok claimed
  | (route, i) :: rest => do
    let claimed ← validateRoute config claimed route i
    walkRoutes config claimed rest

def validateRoutes (config : PolicyConfig) : Except String Unit :=
  if config.isPolicy then (walkRoutes config ∅ config.routes.zipIdx).map fun _ => () else .ok ()

/-- Scopes that only policy mode resolves. -/
def rejectTypedPolicyScopes (config : PolicyConfig) : Except String Unit :=
  let found := [(!config.routes.isEmpty, "routes"),
    (decide (config.global.bundles.keys ≠ ∅), "groups"),
    (decide (config.global.defaults.keys ≠ ∅), "global.defaults"),
    (config.global.authentication.isSome, "global.authentication"),
    (config.global.rateLimits.isSome, "global.rate_limits")].filterMap fun (present, name) =>
      if present then some name else none
  if found.isEmpty then .ok ()
  else .error ("`engine_settings.dispatch: hooks` does not accept the " ++
    (if found.length = 1 then "scope" else "scopes") ++ " `" ++ String.intercalate "`, `" found ++
    "`, which only `dispatch: policy` resolves; under `hooks` a plugin fires at the hooks its " ++
    "own `hooks:` declares, narrowed by its own `conditions:`")

def acceptRoutes (config : PolicyConfig) : Except String Unit := do
  validateRoutes config
  if config.isPolicy then .ok () else rejectTypedPolicyScopes config

section Promises

variable {config : PolicyConfig}

/-- What the walk over the routes of a document promises. -/
structure RoutesAccepted (config : PolicyConfig) : Prop where
  one_selector : ∀ route ∈ config.routes, (declaredSelectors route).length = 1
  selectors_valid : SelectorsValid config
  names_unique : ∀ {i j : ℕ} {route route' : RouteEntry} {entityType name : String}
    {names names' : List String}, config.routes[i]? = some route → config.routes[j]? = some route' →
    routeEntityIdentity route = some (entityType, names) →
    routeEntityIdentity route' = some (entityType, names') → route.scope = route'.scope →
    name ∈ names → name ∈ names' → i = j

variable {claimed claimed' : ClaimedNames}

theorem claimNames_ok {i : ℕ} {entityType : String} {scope : Option String} {names : List String}
    (h : claimNames i entityType scope claimed names = .ok claimed') :
    (∀ name ∈ names, claimed'.lookup (entityType, scope, name) = some i) ∧
      ∀ key first, claimed.lookup key = some first → claimed'.lookup key = some first := by
  induction names generalizing claimed with
  | nil =>
    obtain rfl := Except.ok.inj h
    exact ⟨by simp, fun _ _ hkey => hkey⟩
  | cons name names ih =>
    rw [claimNames] at h
    split at h
    · rename_i first hfirst
      split_ifs at h with hown
      obtain ⟨hnames, hkept⟩ := ih h
      refine ⟨?_, hkept⟩
      rw [List.forall_mem_cons]
      exact ⟨hown ▸ hkept _ _ hfirst, hnames⟩
    · rename_i hfree
      obtain ⟨hnames, hkept⟩ := ih h
      rw [List.forall_mem_cons]
      refine ⟨⟨hkept _ _ (Finmap.lookup_insert _), hnames⟩, fun key first hkey => hkept _ _ ?_⟩
      rw [Finmap.lookup_insert_of_ne _ fun hsame => ?_]
      · exact hkey
      · rw [hsame, hfree] at hkey
        cases hkey

structure RouteAccepted (claimed claimed' : ClaimedNames) (route : RouteEntry) (i : ℕ) : Prop where
  one_selector : (declaredSelectors route).length = 1
  selector_valid : ∀ selector ∈ route.http, selector.defect = none
  claims : ∀ entityType names, routeEntityIdentity route = some (entityType, names) →
    ∀ name ∈ names, claimed'.lookup (entityType, route.scope, name) = some i
  kept : ∀ key first, claimed.lookup key = some first → claimed'.lookup key = some first

theorem validateRoute_ok {route : RouteEntry} {i : ℕ}
    (h : validateRoute config claimed route i = .ok claimed') :
    RouteAccepted claimed claimed' route i := by
  unfold validateRoute at h
  split at h
  · cases h
  · rename_i only honly
    split at h
    · cases h
    · rename_i hdefect
      have hvalid : ∀ selector ∈ route.http, selector.defect = none := by
        intro selector hselector
        rw [Option.mem_def] at hselector
        simpa [hselector] using hdefect
      simp only [bind, Except.bind] at h
      split at h
      · cases h
      · rename_i added hadded
        split at h
        · cases h
        split at h
        · cases h
        obtain rfl := Except.ok.inj h
        refine ⟨by rw [honly]; rfl, hvalid, ?_, ?_⟩
        · intro entityType names hidentity
          rw [claimRoute, hidentity] at hadded
          exact (claimNames_ok hadded).1
        · rw [claimRoute] at hadded
          split at hadded
          · exact (claimNames_ok hadded).2
          · obtain rfl := Except.ok.inj hadded
            exact fun _ _ hkey => hkey
  · cases h

theorem walkRoutes_ok {entries : List (RouteEntry × ℕ)}
    (h : walkRoutes config claimed entries = .ok claimed') :
    (∀ entry ∈ entries, RouteAccepted claimed claimed' entry.1 entry.2) ∧
      ∀ key first, claimed.lookup key = some first → claimed'.lookup key = some first := by
  induction entries generalizing claimed with
  | nil =>
    obtain rfl := Except.ok.inj h
    exact ⟨by simp, fun _ _ hkey => hkey⟩
  | cons entry entries ih =>
    obtain ⟨route, i⟩ := entry
    rw [walkRoutes] at h
    simp only [bind, Except.bind] at h
    split at h
    · cases h
    rename_i added hadded
    have hroute := validateRoute_ok hadded
    obtain ⟨hrest, hkept⟩ := ih h
    refine ⟨?_, fun key first hkey => hkept _ _ (hroute.kept _ _ hkey)⟩
    rw [List.forall_mem_cons]
    refine ⟨⟨hroute.one_selector, hroute.selector_valid, ?_, ?_⟩, fun later hlater => ?_⟩
    · exact fun entityType names hidentity name hname =>
        hkept _ _ (hroute.claims entityType names hidentity name hname)
    · exact fun key first hkey => hkept _ _ (hroute.kept _ _ hkey)
    · obtain ⟨hone, hvalid, hclaims, hlaterKept⟩ := hrest later hlater
      exact ⟨hone, hvalid, hclaims, fun key first hkey => hlaterKept _ _ (hroute.kept _ _ hkey)⟩

theorem routesAccepted_of_validateRoutes (hpolicy : config.isPolicy = true)
    (h : validateRoutes config = .ok ()) : RoutesAccepted config := by
  rw [validateRoutes, if_pos hpolicy] at h
  cases hwalk : walkRoutes config ∅ config.routes.zipIdx with
  | error cause => rw [hwalk] at h; cases h
  | ok claimed =>
    obtain ⟨hall, -⟩ := walkRoutes_ok hwalk
    have hentry : ∀ {i : ℕ} {route : RouteEntry}, config.routes[i]? = some route →
        RouteAccepted ∅ claimed route i := fun {i route} hroute =>
      hall (route, i) (List.mem_zipIdx_iff_getElem?.2 hroute)
    refine ⟨fun route hroute => ?_, fun route hroute => ?_, ?_⟩
    · obtain ⟨i, hi⟩ := List.mem_iff_getElem?.1 hroute
      exact (hentry hi).one_selector
    · obtain ⟨i, hi⟩ := List.mem_iff_getElem?.1 hroute
      exact (hentry hi).selector_valid
    · intro i j route route' entityType name names names' hi hj hids hids' hscope hname hname'
      have hfirst := (hentry hi).claims entityType names hids name hname
      have hsecond := (hentry hj).claims entityType names' hids' name hname'
      rw [hscope, hsecond] at hfirst
      exact (Option.some.inj hfirst).symm

end Promises

end PraxisPolicy
