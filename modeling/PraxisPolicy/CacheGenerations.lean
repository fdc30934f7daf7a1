import PraxisPolicy.PolicyReload

/-!
# Which snapshot a cached list was resolved from

`load_config` publishes a snapshot and then clears the cache; requests go on in between.  The engine
is run together with a record of the generation each cached list was resolved under.
-/

namespace PraxisPolicy

open HashMaps StepRuns

section Generations

structure Generations where
  engine : EngineState
  /-- The number of the snapshot in force. -/
  generation : ℕ
  snapshots : ℕ → RuntimeSnapshot
  /-- Loads that have published and not cleared yet. -/
  uncleared : ℕ
  /-- The generation at the last clear. -/
  clearedAt : ℕ
  pinnedAt : ℕ → ℕ
  resolvedAt : RouteCacheKey → ℕ
  /-- The generations an answer was pinned and resolved under. -/
  provenance : List (ℕ × ℕ)

inductive ReloadEvent where
  | publish (snapshot : RuntimeSnapshot)
  | clear
  | request (event : EngineEvent)

def Generations.start (snapshot : RuntimeSnapshot) : Generations where
  engine := ⟨snapshot, ∅, [], fun _ => none, []⟩
  generation := 0
  snapshots _ := snapshot
  uncleared := 0
  clearedAt := 0
  pinnedAt _ := 0
  resolvedAt _ := 0
  provenance := []

variable [EngineHost]

def Generations.record (g : Generations) : EngineEvent → Generations
  | .load => g
  | .pin id _ => match g.engine.inFlight id with
    | some _ => g
    | none => { g with pinnedAt := Function.update g.pinnedAt id g.generation }
  | .read id _ => match g.engine.inFlight id with
    | some ⟨request, snapshot, none⟩ => match resolveEntries snapshot request with
      | .settled _ => { g with provenance := g.provenance ++ [(g.pinnedAt id, g.pinnedAt id)] }
      | .cached key _ => match g.engine.routingCache.lookup key with
        | some _ => { g with provenance := g.provenance ++ [(g.pinnedAt id, g.resolvedAt key)] }
        | none => g
    | _ => g
  | .fill id => match g.engine.inFlight id with
    | some ⟨_, snapshot, some (key, _)⟩ => { g with
        resolvedAt :=
          if g.engine.routingCache.keys.card < snapshot.routeCacheMaxEntries then
            Function.update g.resolvedAt key (g.pinnedAt id)
          else g.resolvedAt
        provenance := g.provenance ++ [(g.pinnedAt id, g.pinnedAt id)] }
    | _ => g

def Generations.step (g : Generations) : ReloadEvent → Generations
  | .publish snapshot => { g with
      engine := g.engine.perform (.publish snapshot)
      generation := g.generation + 1
      snapshots := Function.update g.snapshots (g.generation + 1) snapshot
      uncleared := g.uncleared + 1 }
  | .clear =>
    if g.uncleared = 0 then g
    else { g with
      engine := g.engine.perform .clearRoutingCache
      uncleared := g.uncleared - 1
      clearedAt := g.generation }
  | .request event => { g.record event with engine := g.engine.step event }

/-- A request finds a list only if the cache was cleared since its snapshot was published, and
leaves one only if no newer snapshot was published by the last clear. -/
def OnItsSide (g : Generations) : ReloadEvent → Prop
  | .request (.read id _) => ∀ request snapshot key steps,
      g.engine.inFlight id = some ⟨request, snapshot, none⟩ →
      resolveEntries snapshot request = .cached key steps → key ∈ g.engine.routingCache →
      g.pinnedAt id ≤ g.clearedAt
  | .request (.fill id) => ∀ request snapshot key fresh,
      g.engine.inFlight id = some ⟨request, snapshot, some (key, fresh)⟩ →
      g.engine.routingCache.keys.card < snapshot.routeCacheMaxEntries →
      g.clearedAt ≤ g.pinnedAt id
  | _ => True

inductive CallStep (g : Generations) : EngineEvent → Generations → Prop
  | idle (event : EngineEvent) : CallStep g event g
  | pin (id : ℕ) (request : RouteRequest) (hfree : g.engine.inFlight id = none) :
    CallStep g (.pin id request) { g with
      engine := { g.engine with
        inFlight :=
          Function.update g.engine.inFlight id (some ⟨request, g.engine.runtime, none⟩) }
      pinnedAt := Function.update g.pinnedAt id g.generation }
  | settled (id : ℕ) (made : Making) (request : RouteRequest) (snapshot : RuntimeSnapshot)
    (result : Except RouteResolutionError (List HookEntry))
    (hcall : g.engine.inFlight id = some ⟨request, snapshot, none⟩)
    (hresolved : resolveEntries snapshot request = .settled result) :
    CallStep g (.read id made) { g with
      engine := g.engine.dispatch id request result
      provenance := g.provenance ++ [(g.pinnedAt id, g.pinnedAt id)] }
  | hit (id : ℕ) (made : Making) (request : RouteRequest) (snapshot : RuntimeSnapshot)
    (key : RouteCacheKey) (steps : List ResolvedStep) (found : List HookEntry)
    (hcall : g.engine.inFlight id = some ⟨request, snapshot, none⟩)
    (hresolved : resolveEntries snapshot request = .cached key steps)
    (hfound : g.engine.routingCache.lookup key = some found) :
    CallStep g (.read id made) { g with
      engine := g.engine.dispatch id request (.ok found)
      provenance := g.provenance ++ [(g.pinnedAt id, g.resolvedAt key)] }
  | miss (id : ℕ) (made : Making) (request : RouteRequest) (snapshot : RuntimeSnapshot)
    (key : RouteCacheKey) (steps : List ResolvedStep)
    (hcall : g.engine.inFlight id = some ⟨request, snapshot, none⟩)
    (hresolved : resolveEntries snapshot request = .cached key steps) :
    CallStep g (.read id made) { g with
      engine := { g.engine with
        inFlight := Function.update g.engine.inFlight id
          (some ⟨request, snapshot, some (key, resolvedEntries made steps)⟩) } }
  | fill (id : ℕ) (request : RouteRequest) (snapshot : RuntimeSnapshot) (key : RouteCacheKey)
    (fresh : List HookEntry)
    (hcall : g.engine.inFlight id = some ⟨request, snapshot, some (key, fresh)⟩)
    (hroom : g.engine.routingCache.keys.card < snapshot.routeCacheMaxEntries) :
    CallStep g (.fill id) { g with
      engine := { g.engine with
        routingCache := g.engine.routingCache.insert key fresh }.dispatch id request (.ok fresh)
      resolvedAt := Function.update g.resolvedAt key (g.pinnedAt id)
      provenance := g.provenance ++ [(g.pinnedAt id, g.pinnedAt id)] }
  | full (id : ℕ) (request : RouteRequest) (snapshot : RuntimeSnapshot) (key : RouteCacheKey)
    (fresh : List HookEntry)
    (hcall : g.engine.inFlight id = some ⟨request, snapshot, some (key, fresh)⟩) :
    CallStep g (.fill id) { g with
      engine := g.engine.dispatch id request (.ok fresh)
      provenance := g.provenance ++ [(g.pinnedAt id, g.pinnedAt id)] }

theorem callStep (g : Generations) (event : EngineEvent) (hloader : g.engine.loader = []) :
    CallStep g event (g.step (.request event)) := by
  cases event with
  | load =>
    simp only [Generations.step, Generations.record, EngineState.step, hloader]
    exact .idle _
  | pin id request =>
    simp only [Generations.step, Generations.record, EngineState.step]
    cases hcall : g.engine.inFlight id with
    | some _ => exact .idle _
    | none => exact .pin id request hcall
  | read id made =>
    simp only [Generations.step, Generations.record, EngineState.step]
    rcases hcall : g.engine.inFlight id with _ | ⟨request, snapshot, _ | _⟩
    · exact .idle _
    · dsimp only
      cases hresolved : resolveEntries snapshot request with
      | settled result => exact .settled id made request snapshot result hcall hresolved
      | cached key steps =>
        dsimp only
        cases hfound : g.engine.routingCache.lookup key with
        | some found => exact .hit id made request snapshot key steps found hcall hresolved hfound
        | none => exact .miss id made request snapshot key steps hcall hresolved
    · exact .idle _
  | fill id =>
    simp only [Generations.step, Generations.record, EngineState.step]
    rcases hcall : g.engine.inFlight id with _ | ⟨request, snapshot, _ | ⟨key, fresh⟩⟩
    · exact .idle _
    · exact .idle _
    · dsimp only [EngineState.remember]
      split_ifs with hroom
      · exact .fill id request snapshot key fresh hcall hroom
      · exact .full id request snapshot key fresh hcall

def ResolvedUnder (snapshots : ℕ → RuntimeSnapshot) (latest resolved : ℕ)
    (result : Except RouteResolutionError (List HookEntry)) : Prop :=
  resolved ≤ latest ∧
    ∃ asked made, (resolveEntries (snapshots resolved) asked).uncached made = result

structure Recorded (g : Generations) : Prop where
  loader : g.engine.loader = []
  runtime : g.engine.runtime = g.snapshots g.generation
  pinned : ∀ id call, g.engine.inFlight id = some call →
    g.pinnedAt id ≤ g.generation ∧ call.snapshot = g.snapshots (g.pinnedAt id)
  missed : ∀ id request snapshot key fresh,
    g.engine.inFlight id = some ⟨request, snapshot, some (key, fresh)⟩ →
    Resolves snapshot request key fresh
  cached : ∀ key entries, g.engine.routingCache.lookup key = some entries →
    ResolvedUnder g.snapshots g.generation (g.resolvedAt key) (.ok entries)
  answered : List.Forall₂ (fun answer recorded => ResolvedUnder g.snapshots g.generation recorded.2 answer.2)
    g.engine.dispatched g.provenance

/-- The cache holds nothing older than the last clear, and no answer is older than its request's
snapshot. -/
structure NoneStale (g : Generations) : Prop where
  cached : ∀ key ∈ g.engine.routingCache, g.clearedAt ≤ g.resolvedAt key
  answered : ∀ recorded ∈ g.provenance, recorded.1 ≤ recorded.2

variable {resolved : ℕ} {g : Generations} {result : Except RouteResolutionError (List HookEntry)}
  {event : EngineEvent} {g' : Generations}

theorem ResolvedUnder.publish {snapshots : ℕ → RuntimeSnapshot} {latest : ℕ}
    (h : ResolvedUnder snapshots latest resolved result) (snapshot : RuntimeSnapshot) :
    ResolvedUnder (Function.update snapshots (latest + 1) snapshot) (latest + 1) resolved
      result := by
  obtain ⟨hle, hasked⟩ := h
  refine ⟨Nat.le_succ_of_le hle, ?_⟩
  rwa [Function.update_of_ne (Nat.lt_succ_of_le hle).ne]

theorem Recorded.publish (h : Recorded g) (snapshot : RuntimeSnapshot) :
    Recorded (g.step (.publish snapshot)) where
  loader := h.loader
  runtime := (Function.update_self (g.generation + 1) snapshot g.snapshots).symm
  pinned id call hcall := by
    obtain ⟨hle, hsnapshot⟩ := h.pinned id call hcall
    refine ⟨Nat.le_succ_of_le hle, ?_⟩
    simpa only [Generations.step, Function.update_of_ne (Nat.lt_succ_of_le hle).ne]
      using hsnapshot
  missed := h.missed
  cached key entries hfound := (h.cached key entries hfound).publish snapshot
  answered := h.answered.imp fun _ _ hanswer => hanswer.publish snapshot

theorem Recorded.clear (h : Recorded g) : Recorded (g.step .clear) := by
  rw [Generations.step]
  split_ifs
  · exact h
  · exact { h with cached := fun key entries hfound => by cases hfound }

theorem Recorded.dispatch (h : Recorded g) (id : ℕ) (request : RouteRequest) (pinned : ℕ)
    (hresult : ResolvedUnder g.snapshots g.generation resolved result) :
    Recorded { g with
      engine := g.engine.dispatch id request result
      provenance := g.provenance ++ [(pinned, resolved)] } where
  loader := h.loader
  runtime := h.runtime
  pinned other call hcall := by
    by_cases hid : other = id
    · simp [EngineState.dispatch, hid] at hcall
    · exact h.pinned other call (by simpa [EngineState.dispatch, hid] using hcall)
  missed other request snapshot key fresh hcall := by
    by_cases hid : other = id
    · simp [EngineState.dispatch, hid] at hcall
    · exact h.missed other request snapshot key fresh
        (by simpa [EngineState.dispatch, hid] using hcall)
  cached := h.cached
  answered := List.rel_append h.answered (.cons hresult .nil)

theorem Recorded.fill (h : Recorded g) (key : RouteCacheKey) {entries : List HookEntry}
    (hresult : ResolvedUnder g.snapshots g.generation resolved (.ok entries)) :
    Recorded { g with
      engine := { g.engine with routingCache := g.engine.routingCache.insert key entries }
      resolvedAt := Function.update g.resolvedAt key resolved } := by
  refine { h with cached := fun other found hfound => ?_ }
  by_cases hkey : other = key
  · subst hkey
    obtain rfl : entries = found := by simpa using hfound
    simpa only [Function.update_self] using hresult
  · rw [Finmap.lookup_insert_of_ne _ hkey] at hfound
    simpa only [Function.update_of_ne hkey] using h.cached other found hfound

theorem Recorded.request (h : Recorded g) (hstep : CallStep g event g') : Recorded g' := by
  -- what a request resolves against the snapshot it pinned
  have hown : ∀ {id request snapshot missed result},
      g.engine.inFlight id = some ⟨request, snapshot, missed⟩ →
      (∃ made, (resolveEntries snapshot request).uncached made = result) →
      ResolvedUnder g.snapshots g.generation (g.pinnedAt id) result := by
    intro id request snapshot missed result hcall hresult
    obtain ⟨hle, rfl⟩ := h.pinned id _ hcall
    exact ⟨hle, request, hresult⟩
  have hlate : ∀ {id request snapshot key fresh},
      g.engine.inFlight id = some ⟨request, snapshot, some (key, fresh)⟩ →
      ResolvedUnder g.snapshots g.generation (g.pinnedAt id) (.ok fresh) := by
    intro id request snapshot key fresh hcall
    obtain ⟨made, steps, hresolved, rfl⟩ := h.missed id request snapshot key fresh hcall
    exact hown hcall ⟨made, by rw [hresolved]; rfl⟩
  cases hstep with
  | idle => exact h
  | pin id request hfree =>
    refine { h with pinned := fun other call hcall => ?_, missed := ?_ }
    · by_cases hid : other = id
      · subst hid
        obtain rfl : _ = call := by simpa using hcall
        simp [h.runtime]
      · simpa [hid] using h.pinned other call (by simpa [hid] using hcall)
    · intro other _ _ key fresh hcall
      by_cases hid : other = id
      · simp [hid] at hcall
      · exact h.missed other _ _ key fresh (by simpa [hid] using hcall)
  | settled id made request snapshot result hcall hresolved =>
    exact h.dispatch id request _ (hown hcall ⟨made, by rw [hresolved]; rfl⟩)
  | hit id made request snapshot key steps found hcall hresolved hfound =>
    exact h.dispatch id request _ (h.cached key found hfound)
  | miss id made request snapshot key steps hcall hresolved =>
    refine { h with pinned := fun other call hother => ?_, missed := ?_ }
    · by_cases hid : other = id
      · subst hid
        obtain rfl : _ = call := by simpa using hother
        exact h.pinned other ⟨request, snapshot, none⟩ hcall
      · exact h.pinned other call (by simpa [hid] using hother)
    · intro other _ _ key' fresh' hother
      by_cases hid : other = id
      · subst hid
        obtain ⟨rfl, rfl, rfl, rfl⟩ := by simpa using hother
        exact ⟨made, steps, hresolved, rfl⟩
      · exact h.missed other _ _ key' fresh' (by simpa [hid] using hother)
  | fill id request snapshot key fresh hcall hroom =>
    exact (h.fill key (hlate hcall)).dispatch id request _ (hlate hcall)
  | full id request snapshot key fresh hcall => exact h.dispatch id request _ (hlate hcall)

theorem Recorded.step (h : Recorded g) (event : ReloadEvent) :
    Recorded (g.step event) := by
  cases event with
  | publish snapshot => exact h.publish snapshot
  | clear => exact h.clear
  | request event => exact h.request (callStep g event h.loader)

omit [EngineHost] in
theorem NoneStale.dispatch {g : Generations} (h : NoneStale g) (id : ℕ) (request : RouteRequest)
    (result : Except RouteResolutionError (List HookEntry)) {pinned resolved : ℕ}
    (hle : pinned ≤ resolved) :
    NoneStale { g with
      engine := g.engine.dispatch id request result
      provenance := g.provenance ++ [(pinned, resolved)] } := by
  refine ⟨h.cached, fun recorded hmem => ?_⟩
  rcases List.mem_append.1 hmem with hmem | hmem
  · exact h.answered recorded hmem
  · rw [List.mem_singleton.1 hmem]
    exact hle

omit [EngineHost] in
theorem NoneStale.fill {g : Generations} (h : NoneStale g) (key : RouteCacheKey)
    (entries : List HookEntry) {resolved : ℕ} (hle : g.clearedAt ≤ resolved) :
    NoneStale { g with
      engine := { g.engine with routingCache := g.engine.routingCache.insert key entries }
      resolvedAt := Function.update g.resolvedAt key resolved } := by
  refine ⟨fun other hother => ?_, h.answered⟩
  by_cases hkey : other = key
  · simpa only [hkey, Function.update_self] using hle
  · simpa only [Function.update_of_ne hkey] using
      h.cached other ((Finmap.mem_insert.1 hother).resolve_left hkey)

theorem NoneStale.request (h : NoneStale g)
    (hok : OnItsSide g (.request event)) (hstep : CallStep g event g') : NoneStale g' := by
  cases hstep with
  | idle => exact h
  | pin => exact ⟨h.cached, h.answered⟩
  | miss => exact ⟨h.cached, h.answered⟩
  | settled id made request snapshot result => exact h.dispatch id request result le_rfl
  | full id request snapshot key fresh => exact h.dispatch id request (.ok fresh) le_rfl
  | hit id made request snapshot key steps found hcall hresolved hfound =>
    have hmem : key ∈ g.engine.routingCache := Finmap.mem_of_lookup_eq_some hfound
    -- the snapshot is not newer than the last clear, and that not newer than the list
    exact h.dispatch id request (.ok found)
      (le_trans (hok request snapshot key steps hcall hresolved hmem) (h.cached key hmem))
  | fill id request snapshot key fresh hcall hroom =>
    refine (h.fill key fresh ?_).dispatch id request (.ok fresh) le_rfl
    exact hok request snapshot key fresh hcall hroom

theorem NoneStale.step (h : NoneStale g) (hrecorded : Recorded g) (event : ReloadEvent)
    (hok : OnItsSide g event) : NoneStale (g.step event) := by
  cases event with
  | publish snapshot => exact ⟨h.cached, h.answered⟩
  | clear =>
    rw [Generations.step]
    split_ifs
    · exact h
    · exact ⟨fun key hkey => absurd hkey Finmap.notMem_empty, h.answered⟩
  | request event => exact h.request hok (callStep g event hrecorded.loader)

/-- If every request reads and fills the cache on its own side of a clear, no answer is older than
the snapshot its request pinned. -/
theorem reload_serves_no_stale_list (snapshot : RuntimeSnapshot) (events : List ReloadEvent)
    (h : AllSteps Generations.step OnItsSide (.start snapshot) events) :
    let g := run Generations.step (.start snapshot) events
    (∀ recorded ∈ g.provenance, recorded.1 ≤ recorded.2) ∧
      List.Forall₂ (fun answer recorded =>
        ResolvedUnder g.snapshots g.generation recorded.2 answer.2)
        g.engine.dispatched g.provenance := by
  obtain ⟨hrecorded, hstale⟩ := invariant_of_allSteps
    (I := fun g => Recorded g ∧ NoneStale g)
    (fun _ event hs hok => ⟨hs.1.step event, hs.2.step hs.1 event hok⟩)
    ⟨⟨rfl, rfl, fun _ _ h => (by cases h), fun _ _ _ _ _ h => (by cases h), fun _ _ h => (by cases h),
      .nil⟩, fun _ _ => Nat.zero_le _, fun _ h => (by cases h)⟩ h
  exact ⟨hstale.answered, hrecorded.answered⟩

end Generations

section Cases

local instance generationHost : EngineHost := plainHost

def signedInBy (step : String) : RuntimeSnapshot :=
  snapshotFromConfig (Finmap.singleton hookIdentityResolve [jwt, basic])
    (policyOf [resolver step]
      [{ RouteEntry.default with
        tool := some (.single "get_pay")
        authentication := some ⟨[⟨step, none⟩], false⟩ }])
    ∅

def signIn : RouteRequest :=
  ⟨hookIdentityResolve, some ⟨some entityTool, some "get_pay", none⟩, none⟩

/-- A request on the old snapshot fills the cache behind the clear. -/
def lateFill : List ReloadEvent :=
  [.request (.pin 0 signIn), .request (.read 0 noInstances), .publish (signedInBy "basic"), .clear,
    .request (.fill 0), .request (.pin 1 signIn), .request (.read 1 noInstances)]

/-- A request on the new snapshot reads the cache before the clear. -/
def earlyRead : List ReloadEvent :=
  [.request (.pin 0 signIn), .request (.read 0 noInstances), .request (.fill 0),
    .publish (signedInBy "basic"), .request (.pin 1 signIn), .request (.read 1 noInstances), .clear]

def served (events : List ReloadEvent) :
    List (ℕ × ℕ) × List (Except RouteResolutionError (List HookEntry)) :=
  let g := run Generations.step (.start (signedInBy "jwt")) events
  (g.provenance, g.engine.dispatched.map Prod.snd)

/-- A request on the new snapshot is served a list of the old one. -/
theorem reload_serves_stale_list :
    served lateFill = ([(0, 0), (1, 0)], [.ok [jwt], .ok [jwt]]) ∧
    served earlyRead = ([(0, 0), (1, 0)], [.ok [jwt], .ok [jwt]]) ∧
    resolveEntries (signedInBy "basic") signIn =
      .cached ⟨entityTool, "get_pay", hookIdentityResolve, none⟩ [⟨basic, false⟩] := by
  refine ⟨?_, ?_, ?_⟩
  · decide +kernel
  · decide +kernel
  · decide +kernel

def acrossReload : List ReloadEvent :=
  [.request (.pin 0 signIn), .request (.read 0 noInstances), .request (.fill 0),
    .publish (signedInBy "basic"), .clear,
    .request (.pin 1 signIn), .request (.read 1 noInstances), .request (.fill 1),
    .request (.pin 2 signIn), .request (.read 2 noInstances)]

theorem reload_serves_no_stale_list_acrossReload :
    let g := run Generations.step (.start (signedInBy "jwt")) acrossReload
    served acrossReload = ([(0, 0), (1, 1), (1, 1)], [.ok [jwt], .ok [basic], .ok [basic]]) ∧
    (∀ recorded ∈ g.provenance, recorded.1 ≤ recorded.2) ∧
      List.Forall₂ (fun answer recorded =>
        ResolvedUnder g.snapshots g.generation recorded.2 answer.2)
        g.engine.dispatched g.provenance := by
  have hok : AllSteps Generations.step OnItsSide (.start (signedInBy "jwt")) acrossReload := by
    refine ⟨trivial, fun _ _ _ _ _ _ _ => ?_, fun _ _ _ _ _ _ => ?_, trivial, trivial, trivial,
      fun _ _ _ _ _ _ _ => ?_, fun _ _ _ _ _ _ => ?_, trivial, fun _ _ _ _ _ _ _ => ?_, trivial⟩
    all_goals decide +kernel
  exact ⟨by decide +kernel, reload_serves_no_stale_list (signedInBy "jwt") acrossReload hok⟩

end Cases

end PraxisPolicy
