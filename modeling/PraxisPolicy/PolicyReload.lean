import PraxisPolicy.RouteCaching
import PraxisPolicy.StepRuns

/-!
# Requests while a policy is reloaded

`load_config_yaml` publishes a snapshot, clears the cache and walks the visitors, each of whose
calls publishes one more snapshot.  The steps of loads and requests interleave in any order.
-/

namespace PraxisPolicy

open HashMaps JsonValues StepRuns

/-- What its snapshot is built from, and the annotations the visitors install, in order. -/
structure LoadedDocument where
  config : PolicyConfig
  hookIndex : HashMap String (List HookEntry)
  rateLimitOverrides : HashMap RateLimitStepSite RateLimitOverride
  annotations : List (AnnotationKey × HookEntry)
  selectors_valid : SelectorsValid config

def LoadedDocument.published (document : LoadedDocument) : RuntimeSnapshot :=
  snapshotFromConfig document.hookIndex document.config document.rateLimitOverrides

def annotateAll (snapshot : RuntimeSnapshot) (installed : List (AnnotationKey × HookEntry)) :
    RuntimeSnapshot :=
  installed.foldl (fun current a => current.annotateRoute a.1 a.2) snapshot

def LoadedDocument.complete (document : LoadedDocument) : RuntimeSnapshot :=
  annotateAll document.published document.annotations

theorem annotateAll_policyConfig (snapshot : RuntimeSnapshot)
    (installed : List (AnnotationKey × HookEntry)) :
    (annotateAll snapshot installed).policyConfig = snapshot.policyConfig := by
  induction installed generalizing snapshot with
  | nil => rfl
  | cons a installed ih => exact ih (snapshot.annotateRoute a.1 a.2)

theorem LoadedDocument.selectorsValid_complete (document : LoadedDocument) :
    ∀ config ∈ document.complete.routingConfig, SelectorsValid config := by
  intro config hconfig
  have hsame : document.complete.policyConfig = some document.config :=
    annotateAll_policyConfig _ _
  rw [RuntimeSnapshot.routingConfig, Option.mem_def, hsame, Option.filter_eq_some_iff] at hconfig
  exact Option.some.inj hconfig.1 ▸ document.selectors_valid

inductive LoadStep where
  | publish (snapshot : RuntimeSnapshot)
  | clearRoutingCache
  | annotateRoute (key : AnnotationKey) (entry : HookEntry)

def LoadStep.isPublish : LoadStep → Bool
  | .publish _ => true
  | _ => false

def LoadStep.isClear : LoadStep → Bool
  | .clearRoutingCache => true
  | _ => false

def LoadStep.isAnnotate : LoadStep → Bool
  | .annotateRoute _ _ => true
  | _ => false

def annotateSteps (installed : List (AnnotationKey × HookEntry)) : List LoadStep :=
  installed.map fun a => .annotateRoute a.1 a.2

def loadConfigYaml (document : LoadedDocument) : List LoadStep :=
  .publish document.published :: .clearRoutingCache :: annotateSteps document.annotations

/-- Between pinning its snapshot and dispatching; `missed` is what it resolved itself. -/
structure Invocation where
  request : RouteRequest
  snapshot : RuntimeSnapshot
  missed : Option (RouteCacheKey × List HookEntry)

structure EngineState where
  runtime : RuntimeSnapshot
  routingCache : HashMap RouteCacheKey (List HookEntry)
  loader : List LoadStep
  inFlight : ℕ → Option Invocation
  dispatched : List (RouteRequest × Except RouteResolutionError (List HookEntry))

inductive EngineEvent where
  | load
  | pin (id : ℕ) (request : RouteRequest)
  | read (id : ℕ) (made : Making)
  | fill (id : ℕ)

def EngineState.perform (state : EngineState) : LoadStep → EngineState
  | .publish snapshot => { state with runtime := snapshot }
  | .clearRoutingCache => { state with routingCache := ∅ }
  | .annotateRoute key entry => { state with runtime := state.runtime.annotateRoute key entry }

def EngineState.dispatch (state : EngineState) (id : ℕ) (request : RouteRequest)
    (result : Except RouteResolutionError (List HookEntry)) : EngineState :=
  { state with
    inFlight := Function.update state.inFlight id none
    dispatched := state.dispatched ++ [(request, result)] }

/-- Keep a list, unless the cache is at the cap of the pinned snapshot. -/
def EngineState.remember (state : EngineState) (snapshot : RuntimeSnapshot)
    (key : RouteCacheKey) (fresh : List HookEntry) : EngineState :=
  if state.routingCache.keys.card < snapshot.routeCacheMaxEntries then
    { state with routingCache := state.routingCache.insert key fresh }
  else state

def EngineState.step [EngineHost] (state : EngineState) : EngineEvent → EngineState
  | .load => match state.loader with
    | [] => state
    | next :: rest => { state.perform next with loader := rest }
  | .pin id request => match state.inFlight id with
    | some _ => state
    | none => { state with
        inFlight := Function.update state.inFlight id (some ⟨request, state.runtime, none⟩) }
  | .read id made => match state.inFlight id with
    | some ⟨request, snapshot, none⟩ => match resolveEntries snapshot request with
      | .settled result => state.dispatch id request result
      | .cached key steps => match state.routingCache.lookup key with
        | some hit => state.dispatch id request (.ok hit)
        | none => { state with
            inFlight := Function.update state.inFlight id
              (some ⟨request, snapshot, some (key, resolvedEntries made steps)⟩) }
    | _ => state
  | .fill id => match state.inFlight id with
    | some ⟨request, snapshot, some (key, fresh)⟩ =>
      (state.remember snapshot key fresh).dispatch id request (.ok fresh)
    | _ => state

def Resolves [EngineHost] (snapshot : RuntimeSnapshot) (request : RouteRequest)
    (key : RouteCacheKey) (entries : List HookEntry) : Prop :=
  ∃ made steps, resolveEntries snapshot request = .cached key steps ∧
    entries = resolvedEntries made steps

/-- The load of the second document is about to publish. -/
def EngineState.reloading (d₁ d₂ : LoadedDocument) : EngineState where
  runtime := d₁.complete
  routingCache := ∅
  loader := loadConfigYaml d₂
  inFlight _ := none
  dispatched := []

section Requests

variable [EngineHost] {Call : Invocation → Prop} {Cached : RouteCacheKey → List HookEntry → Prop}
  {Answered : RouteRequest → Except RouteResolutionError (List HookEntry) → Prop}
  {state : EngineState}

structure RequestsKept (Call : Invocation → Prop)
    (Cached : RouteCacheKey → List HookEntry → Prop)
    (Answered : RouteRequest → Except RouteResolutionError (List HookEntry) → Prop)
    (state : EngineState) : Prop where
  inFlight : ∀ id call, state.inFlight id = some call → Call call
  cached : ∀ key entries, state.routingCache.lookup key = some entries → Cached key entries
  dispatched : ∀ entry ∈ state.dispatched, Answered entry.1 entry.2

omit [EngineHost] in
theorem RequestsKept.dispatch (h : RequestsKept Call Cached Answered state) (id : ℕ)
    {request : RouteRequest} {result : Except RouteResolutionError (List HookEntry)}
    (hanswer : Answered request result) :
    RequestsKept Call Cached Answered (state.dispatch id request result) where
  inFlight other call hcall := by
    by_cases hother : other = id
    · simp [EngineState.dispatch, hother] at hcall
    · exact h.inFlight other call (by simpa [EngineState.dispatch, hother] using hcall)
  cached := h.cached
  dispatched entry hentry := by
    rcases List.mem_append.1 hentry with hbefore | hnew
    · exact h.dispatched entry hbefore
    · rw [List.mem_singleton.1 hnew]
      exact hanswer

omit [EngineHost] in
theorem RequestsKept.carryOn (h : RequestsKept Call Cached Answered state) (id : ℕ)
    {call : Invocation} (hkept : Call call) :
    RequestsKept Call Cached Answered
      { state with inFlight := Function.update state.inFlight id (some call) } where
  inFlight other call' hcall := by
    by_cases hother : other = id
    · have hsame : call = call' := by simpa [hother] using hcall
      exact hsame ▸ hkept
    · exact h.inFlight other call' (by simpa [hother] using hcall)
  cached := h.cached
  dispatched := h.dispatched

theorem RequestsKept.pin (h : RequestsKept Call Cached Answered state) (id : ℕ)
    (request : RouteRequest) (hcall : Call ⟨request, state.runtime, none⟩) :
    RequestsKept Call Cached Answered (state.step (.pin id request)) := by
  rw [EngineState.step]
  split
  · exact h
  · exact h.carryOn id hcall

theorem RequestsKept.read (h : RequestsKept Call Cached Answered state) (id : ℕ) (made : Making)
    (hsettled : ∀ request snapshot result, Call ⟨request, snapshot, none⟩ →
      resolveEntries snapshot request = .settled result → Answered request result)
    (hhit : ∀ request snapshot key steps hit, state.inFlight id = some ⟨request, snapshot, none⟩ →
      Call ⟨request, snapshot, none⟩ → resolveEntries snapshot request = .cached key steps →
      state.routingCache.lookup key = some hit → Answered request (.ok hit))
    (hmissed : ∀ request snapshot key steps, Call ⟨request, snapshot, none⟩ →
      resolveEntries snapshot request = .cached key steps →
      Call ⟨request, snapshot, some (key, resolvedEntries made steps)⟩) :
    RequestsKept Call Cached Answered (state.step (.read id made)) := by
  rw [EngineState.step]
  split
  · rename_i request snapshot hcall
    have hkept := h.inFlight id _ hcall
    split
    · rename_i result hresolved
      exact h.dispatch id (hsettled request snapshot result hkept hresolved)
    · rename_i key steps hresolved
      split
      · rename_i hit hlookup
        exact h.dispatch id (hhit request snapshot key steps hit hcall hkept hresolved hlookup)
      · exact h.carryOn id (hmissed request snapshot key steps hkept hresolved)
  · exact h

theorem RequestsKept.fill (h : RequestsKept Call Cached Answered state) (id : ℕ)
    (hanswer : ∀ request snapshot key fresh, Call ⟨request, snapshot, some (key, fresh)⟩ →
      Answered request (.ok fresh))
    (hcached : ∀ request snapshot key fresh,
      state.inFlight id = some ⟨request, snapshot, some (key, fresh)⟩ →
      Call ⟨request, snapshot, some (key, fresh)⟩ →
      state.routingCache.keys.card < snapshot.routeCacheMaxEntries → Cached key fresh) :
    RequestsKept Call Cached Answered (state.step (.fill id)) := by
  rw [EngineState.step]
  split
  · rename_i request snapshot key fresh hcall
    have hkept := h.inFlight id _ hcall
    have hremembered : RequestsKept Call Cached Answered (state.remember snapshot key fresh) := by
      rw [EngineState.remember]
      split_ifs with hroom
      · refine ⟨h.inFlight, fun other entries hother => ?_, h.dispatched⟩
        by_cases hkey : other = key
        · subst hkey
          rw [Finmap.lookup_insert, Option.some_inj] at hother
          exact hother ▸ hcached request snapshot other fresh hcall hkept hroom
        · rw [Finmap.lookup_insert_of_ne _ hkey] at hother
          exact h.cached other entries hother
      · exact h
    exact hremembered.dispatch id (hanswer request snapshot key fresh hkept)
  · exact h

theorem step_request (state : EngineState) {event : EngineEvent} (h : event ≠ .load) :
    (state.step event).loader = state.loader ∧ (state.step event).runtime = state.runtime := by
  unfold EngineState.step EngineState.remember EngineState.dispatch
  cases event with
  | load => exact absurd rfl h
  | pin id request => dsimp only; split <;> exact ⟨rfl, rfl⟩
  | read id made =>
    dsimp only
    split
    · split
      · exact ⟨rfl, rfl⟩
      · split <;> exact ⟨rfl, rfl⟩
    · exact ⟨rfl, rfl⟩
  | fill id =>
    dsimp only
    split
    · split_ifs <;> exact ⟨rfl, rfl⟩
    · exact ⟨rfl, rfl⟩

end Requests

section Reload

variable (d₁ d₂ : LoadedDocument)

/-- Some annotations of the new document are still to come. -/
def midLoad (loader : List LoadStep) : Bool :=
  !loader.any LoadStep.isPublish && loader.any LoadStep.isAnnotate

/-- The first one until the clear. -/
def cacheDocument (loader : List LoadStep) : LoadedDocument :=
  if loader.any LoadStep.isClear then d₁ else d₂

/-- The snapshot a complete load of one of the two documents ends with. -/
def OfOne (snapshot : RuntimeSnapshot) : Prop :=
  snapshot = d₁.complete ∨ snapshot = d₂.complete

inductive LoadProgress : List LoadStep → RuntimeSnapshot → Prop where
  | waiting : LoadProgress (loadConfigYaml d₂) d₁.complete
  | published :
      LoadProgress (.clearRoutingCache :: annotateSteps d₂.annotations) d₂.published
  | visiting (done rest : List (AnnotationKey × HookEntry)) (h : d₂.annotations = done ++ rest) :
      LoadProgress (annotateSteps rest) (annotateAll d₂.published done)

variable [EngineHost]

/-- No snapshot is pinned mid-load, and a generic HTTP request uses the cache only while it is its
own document's. -/
def Undisturbed (state : EngineState) : EngineEvent → Prop
  | .load => True
  | .pin _ _ => midLoad state.loader = false
  | .read id _ => ∀ request snapshot key steps, state.inFlight id = some ⟨request, snapshot, none⟩ →
      resolveEntries snapshot request = .cached key steps → key.entityType = entityHttp →
      key ∈ state.routingCache → snapshot = (cacheDocument d₁ d₂ state.loader).complete
  | .fill id => ∀ request snapshot key fresh,
      state.inFlight id = some ⟨request, snapshot, some (key, fresh)⟩ →
      key.entityType = entityHttp →
      state.routingCache.keys.card < snapshot.routeCacheMaxEntries →
      snapshot = (cacheDocument d₁ d₂ state.loader).complete

def AnswersOne (request : RouteRequest)
    (result : Except RouteResolutionError (List HookEntry)) : Prop :=
  ∃ made, result = (resolveEntries d₁.complete request).uncached made ∨
    result = (resolveEntries d₂.complete request).uncached made

def CachedFrom (loader : List LoadStep) (key : RouteCacheKey) (entries : List HookEntry) : Prop :=
  ∃ snapshot request, OfOne d₁ d₂ snapshot ∧ Resolves snapshot request key entries ∧
    (key.entityType = entityHttp → snapshot = (cacheDocument d₁ d₂ loader).complete)

structure InvocationKept (call : Invocation) : Prop where
  pinned : OfOne d₁ d₂ call.snapshot
  missed : ∀ key fresh, call.missed = some (key, fresh) →
    Resolves call.snapshot call.request key fresh

/-- What undisturbed steps keep. -/
structure Coherent (state : EngineState) : Prop where
  loading : LoadProgress d₁ d₂ state.loader state.runtime
  inFlight : ∀ id call, state.inFlight id = some call → InvocationKept d₁ d₂ call
  cached : ∀ key entries, state.routingCache.lookup key = some entries →
    CachedFrom d₁ d₂ state.loader key entries
  dispatched : ∀ entry ∈ state.dispatched, AnswersOne d₁ d₂ entry.1 entry.2

variable {d₁ d₂}

omit [EngineHost] in
theorem eq_nil_of_not_midLoad {installed : List (AnnotationKey × HookEntry)}
    (h : midLoad (annotateSteps installed) = false) : installed = [] := by
  simpa [midLoad, annotateSteps, LoadStep.isPublish, LoadStep.isAnnotate,
    List.eq_nil_iff_forall_not_mem] using h

variable {loader : List LoadStep}

omit [EngineHost] in
theorem LoadProgress.ofOne {runtime : RuntimeSnapshot}
    (h : LoadProgress d₁ d₂ loader runtime) (hmid : midLoad loader = false) :
    OfOne d₁ d₂ runtime := by
  cases h with
  | waiting => exact .inl rfl
  | published =>
    have hnone : d₂.annotations = [] := eq_nil_of_not_midLoad hmid
    exact .inr (by simp [LoadedDocument.complete, hnone, annotateAll])
  | visiting done rest hsplit =>
    rw [eq_nil_of_not_midLoad hmid, List.append_nil] at hsplit
    exact .inr (by rw [LoadedDocument.complete, hsplit])

variable {snapshot : RuntimeSnapshot} {state : EngineState} {rest : List LoadStep}

theorem OfOne.answers (h : OfOne d₁ d₂ snapshot) (request : RouteRequest) (made : Making) :
    AnswersOne d₁ d₂ request ((resolveEntries snapshot request).uncached made) := by
  rcases h with rfl | rfl
  · exact ⟨made, .inl rfl⟩
  · exact ⟨made, .inr rfl⟩

theorem OfOne.answers_of_resolves (h : OfOne d₁ d₂ snapshot) {request : RouteRequest}
    {key : RouteCacheKey} {entries : List HookEntry}
    (hresolves : Resolves snapshot request key entries) :
    AnswersOne d₁ d₂ request (.ok entries) := by
  obtain ⟨made, steps, hresolved, rfl⟩ := hresolves
  have hanswer := h.answers request made
  rw [hresolved] at hanswer
  exact hanswer

theorem Coherent.requests (h : Coherent d₁ d₂ state) :
    RequestsKept (InvocationKept d₁ d₂) (CachedFrom d₁ d₂ state.loader) (AnswersOne d₁ d₂) state :=
  ⟨h.inFlight, h.cached, h.dispatched⟩

theorem Coherent.of_requests (h : Coherent d₁ d₂ state) {event : EngineEvent}
    (hevent : event ≠ .load)
    (hkept : RequestsKept (InvocationKept d₁ d₂) (CachedFrom d₁ d₂ state.loader) (AnswersOne d₁ d₂)
      (state.step event)) :
    Coherent d₁ d₂ (state.step event) := by
  obtain ⟨hloader, hruntime⟩ := step_request state hevent
  refine ⟨?_, hkept.inFlight, ?_, hkept.dispatched⟩
  · rw [hloader, hruntime]
    exact h.loading
  · rw [hloader]
    exact hkept.cached

omit [EngineHost] in
theorem LoadProgress.load {state : EngineState} {next : LoadStep}
    (h : LoadProgress d₁ d₂ (next :: rest) state.runtime) :
    LoadProgress d₁ d₂ rest (state.perform next).runtime := by
  generalize hloader : next :: rest = loader at h
  generalize hruntime : state.runtime = runtime at h
  cases h with
  | waiting =>
    obtain ⟨rfl, rfl⟩ := List.cons.inj hloader
    exact .published
  | published =>
    obtain ⟨rfl, rfl⟩ := List.cons.inj hloader
    exact hruntime ▸ .visiting [] d₂.annotations rfl
  | visiting done remaining hsplit =>
    cases remaining with
    | nil => cases hloader
    | cons a remaining =>
      obtain ⟨rfl, rfl⟩ := List.cons.inj hloader
      have hdone : (state.perform (.annotateRoute a.1 a.2)).runtime =
          annotateAll d₂.published (done ++ [a]) := by
        rw [annotateAll, List.foldl_append]
        simp only [EngineState.perform, hruntime, annotateAll, List.foldl_cons, List.foldl_nil]
      exact hdone ▸ .visiting (done ++ [a]) remaining (by simp [hsplit])

theorem CachedFrom.load {next : LoadStep}
    (hcached : ∀ key entries, state.routingCache.lookup key = some entries →
      CachedFrom d₁ d₂ (next :: rest) key entries)
    (key : RouteCacheKey) (entries : List HookEntry)
    (hlookup : (state.perform next).routingCache.lookup key = some entries) :
    CachedFrom d₁ d₂ rest key entries := by
  cases next with
  | publish snapshot => exact hcached key entries hlookup
  | clearRoutingCache => cases hlookup
  | annotateRoute key' entry => exact hcached key entries hlookup

theorem Coherent.load (h : Coherent d₁ d₂ state) :
    Coherent d₁ d₂ (state.step .load) := by
  obtain ⟨hloading, hinFlight, hcached, hdispatched⟩ := h
  rw [EngineState.step]
  split
  · exact ⟨hloading, hinFlight, hcached, hdispatched⟩
  · rename_i next rest hloader
    rw [hloader] at hloading hcached
    refine ⟨hloading.load, ?_, CachedFrom.load hcached, ?_⟩
    · cases next <;> exact hinFlight
    · cases next <;> exact hdispatched

theorem Coherent.step (h : Coherent d₁ d₂ state) (event : EngineEvent)
    (hok : Undisturbed d₁ d₂ state event) : Coherent d₁ d₂ (state.step event) := by
  cases event with
  | load => exact h.load
  | pin id request =>
    exact h.of_requests (by simp) (h.requests.pin id request
      ⟨h.loading.ofOne hok, fun _ _ hmissed => by cases hmissed⟩)
  | read id made =>
    refine h.of_requests (by simp) (h.requests.read id made ?_ ?_ ?_)
    · intro request snapshot result hkept hresolved
      have hanswer := hkept.pinned.answers request made
      rw [hresolved] at hanswer
      exact hanswer
    · intro request snapshot key steps hit hcall hkept hresolved hlookup
      obtain ⟨filler, filled, hfiller, ⟨making, filling, hfilled, rfl⟩, hdocument⟩ :=
        h.cached key hit hlookup
      by_cases hhttp : key.entityType = entityHttp
      · -- a generic HTTP request gets the list its own snapshot would resolve to
        have hown := hok request snapshot key steps hcall hresolved hhttp
          (Finmap.mem_of_lookup_eq_some hlookup)
        obtain rfl : filler = snapshot := (hdocument hhttp).trans hown.symm
        have hvalid : ∀ config ∈ filler.routingConfig, SelectorsValid config := by
          rcases hfiller with rfl | rfl
          · exact d₁.selectorsValid_complete
          · exact d₂.selectorsValid_complete
        obtain rfl : steps = filling := steps_unique hvalid hresolved hfilled
        exact hfiller.answers_of_resolves ⟨making, steps, hresolved, rfl⟩
      · -- a named one gets that of the snapshot that filled the cache
        have hagrees := resolveEntries_of_named_key hhttp hfilled hresolved
        exact hfiller.answers_of_resolves ⟨making, filling, hagrees, rfl⟩
    · intro request snapshot key steps hkept hresolved
      refine ⟨hkept.pinned, fun key' fresh' hmissed => ?_⟩
      cases hmissed
      exact ⟨made, steps, hresolved, rfl⟩
  | fill id =>
    refine h.of_requests (by simp) (h.requests.fill id ?_ ?_)
    · intro request snapshot key fresh hkept
      exact hkept.pinned.answers_of_resolves (hkept.missed key fresh rfl)
    · intro request snapshot key fresh hcall hkept hroom
      exact ⟨snapshot, request, hkept.pinned, hkept.missed key fresh rfl,
        fun hhttp => hok request snapshot key fresh hcall hhttp hroom⟩

end Reload

section Cases

local instance plainHost : EngineHost where
  passesConditions _ _ := true

def noInstances : Making := fun _ => none

def policyOf (plugins : List PluginDeclaration) (routes : List RouteEntry) : PolicyConfig :=
  ⟨.default, plugins, ∅, routes, .default⟩

def payHook : String := "cmf.tool_pre_invoke"

def payDocument (handler : HookEntry) : LoadedDocument where
  config := policyOf [] [{ RouteEntry.default with tool := some (.single "get_pay") }]
  hookIndex := ∅
  rateLimitOverrides := ∅
  annotations := [(⟨entityTool, "get_pay", none, payHook⟩, handler)]
  selectors_valid := by
    intro route hroute selector hselector
    rw [List.mem_singleton.1 hroute] at hselector
    cases hselector

def payRequest : RouteRequest := ⟨payHook, some ⟨some entityTool, some "get_pay", none⟩, none⟩

def oldPolicy : HookEntry := ⟨0, "policy", 0⟩
def newPolicy : HookEntry := ⟨1, "policy", 1⟩

def apiRoute (selector : HttpMatch) (step : String) : RouteEntry :=
  { RouteEntry.default with
    http := some (.byMatch selector)
    authentication := some ⟨[⟨step, none⟩], false⟩ }

def resolver (name : String) : PluginDeclaration := ⟨name, [hookIdentityResolve]⟩

def jwt : HookEntry := ⟨2, "jwt", 0⟩
def mtls : HookEntry := ⟨3, "mtls", 0⟩
def basic : HookEntry := ⟨4, "basic", 0⟩

def apiBefore : LoadedDocument where
  config := policyOf [resolver "jwt", resolver "mtls"]
    [apiRoute ⟨none, some "/api", none⟩ "jwt", apiRoute ⟨some "/api/x", none, none⟩ "mtls"]
  hookIndex := Finmap.singleton hookIdentityResolve [jwt, mtls]
  rateLimitOverrides := ∅
  annotations := []
  selectors_valid := by decide

/-- Under `/api`, with a new resolver; the registry keeps the old ones. -/
def apiAfter : LoadedDocument where
  config := policyOf [resolver "basic"] [apiRoute ⟨none, some "/api", none⟩ "basic"]
  hookIndex := Finmap.singleton hookIdentityResolve [jwt, mtls, basic]
  rateLimitOverrides := ∅
  annotations := []
  selectors_valid := by decide

def apiRequest (path : String) : RouteRequest :=
  ⟨hookIdentityResolve, some ⟨some entityHttp, none, none⟩,
    some { HttpExtension.default with path := some path }⟩

def aroundReload : List EngineEvent :=
  [.pin 0 payRequest, .read 0 noInstances, .load, .load, .load, .pin 0 payRequest, .read 0 noInstances]

end Cases

end PraxisPolicy
