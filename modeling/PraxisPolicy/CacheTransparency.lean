import PraxisPolicy.PolicyReload
import PraxisPolicy.RouteValidation

/-!
# The routing cache on one snapshot

While one snapshot is published, a request is dispatched to the list it would get with no cache.
Only the instances made for overridden steps may be another read's: a cached list keeps its own.
-/

namespace PraxisPolicy

open HashMaps StepRuns

section Serving

def EngineState.serving (snapshot : RuntimeSnapshot) : EngineState where
  runtime := snapshot
  routingCache := ∅
  loader := []
  inFlight _ := none
  dispatched := []

/-- What came of the overrides at the reads of a run. -/
def makings (events : List EngineEvent) : Set Making :=
  {made | ∃ id, .read id made ∈ events}

def Resolution.overrides : Resolution → Bool
  | .settled _ => false
  | .cached _ steps => steps.any ResolvedStep.overridden

theorem Resolution.uncached_of_plain {resolved : Resolution} (h : resolved.overrides = false)
    (made made' : Making) : resolved.uncached made = resolved.uncached made' := by
  cases resolved with
  | settled result => rfl
  | cached key steps =>
    have hplain : ∀ made, resolvedEntries made steps = steps.map ResolvedStep.entry := by
      intro made
      refine List.ext_getElem (by simp [resolvedEntries]) fun i _ _ => ?_
      have hstep := List.any_eq_false.1 h _
        (List.getElem_mem (by simpa using ‹i < (steps.map _).length›))
      simp [resolvedEntries, hstep]
    rw [Resolution.uncached, Resolution.uncached, hplain made, hplain made']

variable [EngineHost] (snapshot : RuntimeSnapshot) (known : Set Making)

/-- A list the request has for the key with instances of the makings. -/
def ResolvesWith (request : RouteRequest) (key : RouteCacheKey) (entries : List HookEntry) : Prop :=
  ∃ made ∈ known, ∃ steps, resolveEntries snapshot request = .cached key steps ∧
    entries = resolvedEntries made steps

def AnswersWith (request : RouteRequest) (result : Except RouteResolutionError (List HookEntry)) :
    Prop :=
  ∃ made ∈ known, result = (resolveEntries snapshot request).uncached made

structure CallOf (call : Invocation) : Prop where
  pinned : call.snapshot = snapshot
  missed : ∀ key fresh, call.missed = some (key, fresh) →
    ResolvesWith snapshot known call.request key fresh

/-- The cache only holds lists of the snapshot, and answers are those without a cache. -/
structure Transparent (state : EngineState) : Prop where
  runtime : state.runtime = snapshot
  loader : state.loader = []
  requests : RequestsKept (CallOf snapshot known)
    (fun key entries => ∃ request, ResolvesWith snapshot known request key entries)
    (AnswersWith snapshot known) state

variable {snapshot known} {state : EngineState}

theorem ResolvesWith.answers {request : RouteRequest} {key : RouteCacheKey}
    {entries : List HookEntry} (h : ResolvesWith snapshot known request key entries) :
    AnswersWith snapshot known request (.ok entries) := by
  obtain ⟨made, hmade, steps, hresolved, rfl⟩ := h
  exact ⟨made, hmade, by rw [hresolved]; rfl⟩

theorem ResolvesWith.of_key (hvalid : ∀ config ∈ snapshot.routingConfig, SelectorsValid config)
    {request filler : RouteRequest} {key : RouteCacheKey} {steps : List ResolvedStep}
    {entries : List HookEntry} (h : ResolvesWith snapshot known filler key entries)
    (hresolved : resolveEntries snapshot request = .cached key steps) :
    ResolvesWith snapshot known request key entries := by
  obtain ⟨made, hmade, steps', hfiller, rfl⟩ := h
  obtain rfl := steps_unique hvalid hfiller hresolved
  exact ⟨made, hmade, steps', hresolved, rfl⟩

theorem Transparent.of_requests (h : Transparent snapshot known state)
    {event : EngineEvent} (hevent : event ≠ .load) (hkept : RequestsKept (CallOf snapshot known)
      (fun key entries => ∃ request, ResolvesWith snapshot known request key entries)
      (AnswersWith snapshot known) (state.step event)) :
    Transparent snapshot known (state.step event) := by
  obtain ⟨hloader, hruntime⟩ := step_request state hevent
  exact ⟨hruntime.trans h.runtime, hloader.trans h.loader, hkept⟩

theorem Transparent.step (hvalid : ∀ config ∈ snapshot.routingConfig, SelectorsValid config)
    (h : Transparent snapshot known state) (event : EngineEvent)
    (hknown : ∀ id made, event = .read id made → made ∈ known) :
    Transparent snapshot known (state.step event) := by
  cases event with
  | load =>
    rw [EngineState.step, h.loader]
    exact h
  | pin id request =>
    refine h.of_requests (by simp) (h.requests.pin id request ?_)
    exact ⟨h.runtime, fun _ _ hmissed => by cases hmissed⟩
  | read id made =>
    have hmade : made ∈ known := hknown id made rfl
    refine h.of_requests (by simp) (h.requests.read id made ?_ ?_ ?_)
    · rintro request pinned result ⟨rfl, -⟩ hresolved
      exact ⟨made, hmade, by rw [hresolved]; rfl⟩
    · rintro request pinned key steps hit - ⟨rfl, -⟩ hresolved hlookup
      obtain ⟨filler, hfiller⟩ := h.requests.cached key hit hlookup
      exact (hfiller.of_key hvalid hresolved).answers
    · rintro request pinned key steps ⟨rfl, -⟩ hresolved
      refine ⟨rfl, fun key' fresh' hmissed => ?_⟩
      cases hmissed
      exact ⟨made, hmade, steps, hresolved, rfl⟩
  | fill id =>
    refine h.of_requests (by simp) (h.requests.fill id ?_ ?_)
    · rintro request pinned key fresh ⟨-, hmissed⟩
      exact (hmissed key fresh rfl).answers
    · rintro request pinned key fresh - ⟨-, hmissed⟩ -
      exact ⟨request, hmissed key fresh rfl⟩

theorem transparent_run (hvalid : ∀ config ∈ snapshot.routingConfig, SelectorsValid config)
    (events : List EngineEvent) :
    Transparent snapshot (makings events) (run EngineState.step (.serving snapshot) events) := by
  refine invariant_of_mem (fun state event h hevent => h.step hvalid event ?_)
    ⟨rfl, rfl, fun _ _ h => (by cases h), fun _ _ h => (by cases h), fun _ h => (by cases h)⟩
  rintro id made rfl
  exact ⟨id, hevent⟩

/-- A request let through on its own leaves with its uncached list. -/
theorem Transparent.served (hvalid : ∀ config ∈ snapshot.routingConfig, SelectorsValid config)
    (h : Transparent snapshot known state) {id : ℕ} (hfree : state.inFlight id = none)
    (request : RouteRequest) (made : Making) :
    ∃ used ∈ insert made known,
      (run EngineState.step state [.pin id request, .read id made, .fill id]).dispatched =
        state.dispatched ++ [(request, (resolveEntries snapshot request).uncached used)] := by
  have hpin : state.step (.pin id request) = { state with
      inFlight := Function.update state.inFlight id (some ⟨request, snapshot, none⟩) } := by
    rw [EngineState.step, hfree, h.runtime]
  simp only [run_cons, hpin]
  cases hresolved : resolveEntries snapshot request with
  | settled result =>
    refine ⟨made, Set.mem_insert _ _, ?_⟩
    simp [run, EngineState.step, hresolved, EngineState.dispatch, Resolution.uncached]
  | cached key steps =>
    cases hlookup : state.routingCache.lookup key with
    | none =>
      refine ⟨made, Set.mem_insert _ _, ?_⟩
      simp only [run, List.foldl_nil, EngineState.step, Function.update_self,
        hresolved, hlookup, EngineState.dispatch, EngineState.remember, Resolution.uncached]
      split_ifs <;> rfl
    | some hit =>
      obtain ⟨filler, hfiller⟩ := h.requests.cached key hit hlookup
      obtain ⟨used, hused, hhit⟩ := (hfiller.of_key hvalid hresolved).answers
      refine ⟨used, Set.mem_insert_of_mem _ hused, ?_⟩
      rw [← hresolved, ← hhit]
      simp [run, EngineState.step, hresolved, hlookup, EngineState.dispatch]

omit [EngineHost] in
theorem selectorsValid_of_validated
    (hvalid : ∀ config ∈ snapshot.policyConfig, validateRoutes config = .ok ()) :
    ∀ config ∈ snapshot.routingConfig, SelectorsValid config := by
  intro config hconfig
  rw [RuntimeSnapshot.routingConfig, Option.mem_def, Option.filter_eq_some_iff] at hconfig
  exact (routesAccepted_of_validateRoutes hconfig.2 (hvalid config hconfig.1)).selectors_valid

end Serving

section Cases

local instance servingHost : EngineHost := plainHost

/-- One tool whose authentication step has a config of its own. -/
def overridingPay : RuntimeSnapshot :=
  snapshotFromConfig (Finmap.singleton hookIdentityResolve [basic])
    (policyOf [resolver "basic"]
      [{ RouteEntry.default with
        tool := some (.single "get_pay")
        authentication := some ⟨[⟨"basic", some (.object [])⟩], false⟩ }])
    ∅

def payCall : RouteRequest :=
  ⟨hookIdentityResolve, some ⟨some entityTool, some "get_pay", none⟩, none⟩

def instanceOf (pluginId : ℕ) : Making := fun _ => some ⟨pluginId, 0⟩

end Cases

end PraxisPolicy
