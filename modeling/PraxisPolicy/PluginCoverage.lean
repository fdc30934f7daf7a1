import PraxisPolicy.ParallelSafety
import PraxisPolicy.RoutePhases

/-!
# The plugins a route can call

A dispatch plan is made for the names that the run steps and the declared pipelines of a route
mention.  Stages of field operations are not looked at.  The check of `parallel:` blocks goes over
the same nodes.
-/

namespace PraxisPolicy

open HashMaps JsonValues TextScanning WorldTasks

def Stage.pluginName : Stage → Option String
  | .plugin name => some name
  | _ => none

def stagePlugins (stages : List Stage) : List String := stages.filterMap Stage.pluginName

mutual

/-- In the order `walk_effects` visits them. -/
def nodesOf : Effect → List Effect
  | .when condition body source => .when condition body source :: nodesIn body
  | .sequential es => .sequential es :: nodesIn es
  | .parallel es => .parallel es :: nodesIn es
  | .pdp call onAllow onDeny => .pdp call onAllow onDeny :: (nodesIn onAllow ++ nodesIn onDeny)
  | e => [e]

def nodesIn : List Effect → List Effect
  | [] => []
  | e :: es => nodesOf e ++ nodesIn es

end

/-- An operation on the side that the phase does not own is dropped. -/
def runsFieldOp (phase : DispatchPhase) (path : String) : Bool :=
  match stripPrefix "args." path, stripPrefix "result." path with
  | some _, _ => decide (phase = .pre)
  | none, some _ => decide (phase = .post)
  | none, none => false

namespace Effect

def runName : Effect → Option String
  | .plugin name => some name
  | _ => none

def delegateName : Effect → Option String
  | .delegate step => some step.pluginName
  | _ => none

def elicitName : Effect → Option String
  | .elicit step => some step.pluginName
  | _ => none

/-- The pipeline a node runs in a phase. -/
def fieldStages (phase : DispatchPhase) : Effect → List Stage
  | .fieldOp path stages => if runsFieldOp phase path then stages else []
  | _ => []

def ownPlugins (phase : DispatchPhase) (e : Effect) : List String :=
  e.runName.toList ++ stagePlugins (e.fieldStages phase)

end Effect

theorem mem_nodesIn {node : Effect} {es : List Effect} :
    node ∈ nodesIn es ↔ ∃ e ∈ es, node ∈ nodesOf e := by
  induction es with
  | nil => simp [nodesIn]
  | cons e es ih => simp [nodesIn, ih]

def CompiledRoute.nodes (route : CompiledRoute) : List Effect :=
  nodesIn route.preInvocation ++ nodesIn route.postInvocation

/-- The nodes of a route with the phase each of them runs in. -/
def CompiledRoute.placed (route : CompiledRoute) : List (DispatchPhase × Effect) :=
  (nodesIn route.preInvocation).map (.pre, ·) ++ (nodesIn route.postInvocation).map (.post, ·)

def CompiledRoute.declaredStages (route : CompiledRoute) : List Stage :=
  (route.args ++ route.result).flatMap FieldRule.stages

def collectPluginNames (route : CompiledRoute) : List String :=
  (route.nodes.filterMap Effect.runName ++ stagePlugins route.declaredStages).eraseDups

def collectDelegatePluginNames (route : CompiledRoute) : List String :=
  (route.nodes.filterMap Effect.delegateName).eraseDups

def collectElicitPluginNames (route : CompiledRoute) : List String :=
  (route.nodes.filterMap Effect.elicitName).eraseDups

/-- Those of its declaration, unless the route overrides them. -/
def effectiveCapabilities (registry : HashMap String (List String))
    (overrides : HashMap String (Option (List String))) (name : String) : Option (List String) :=
  (registry.lookup name).map fun declared => (overrides.lookup name).join.getD declared

def routeCapabilityUnion (route : CompiledRoute) (registry : HashMap String (List String))
    (overrides : HashMap String (Option (List String))) : Finset String :=
  let declared names := (names.filterMap (effectiveCapabilities registry overrides)).flatten.toFinset
  declared (collectPluginNames route) ∪ declared (collectDelegatePluginNames route) ∪
    declared (collectElicitPluginNames route) ∪
    if (collectElicitPluginNames route).isEmpty then ∅ else {"read_headers"}

section Calls

variable [Library] {W : Type} {env : Invokers W}
  {other : String → AttributeBag → PluginInvocation → Task W (Except PluginError PluginOutcome)}
  {phase : DispatchPhase}

variable {stages : List Stage} {es : List Effect}

theorem runStages_congr
    (h : ∀ name ∈ stagePlugins stages, other name = env.plugin name) (bag : AttributeBag)
    (field : String) (idx : ℕ) (current : Json) (replaced : Bool) (taints : List TaintEvent)
    (visits : List Visit) :
    runStages { env with plugin := other } bag field phase stages idx current replaced taints visits =
      runStages env bag field phase stages idx current replaced taints visits := by
  induction stages generalizing idx current replaced taints visits with
  | nil => rfl
  | cons stage stages ih =>
    have hrest := ih fun name hname => h name (by
      rw [stagePlugins, List.filterMap_cons]
      split <;> first | exact hname | exact List.mem_cons_of_mem _ hname)
    cases stage with
    | plugin name => simp only [runStages, hrest, h name (by simp [stagePlugins, Stage.pluginName])]
    | _ => simp only [runStages, hrest]

theorem fieldOpAt_congr (h : ∀ name ∈ stagePlugins stages, other name = env.plugin name)
    (side : Side) (subpath fallbackSource : String) :
    fieldOpAt { env with plugin := other } side subpath stages fallbackSource phase =
      fieldOpAt env side subpath stages fallbackSource phase := by
  funext concrete s
  simp only [fieldOpAt, evaluatePipeline, runStages_congr h]

theorem dispatchFieldOp_congr (path : String)
    (h : ∀ name ∈ stagePlugins ((Effect.fieldOp path stages).fieldStages phase),
      other name = env.plugin name) (fallbackSource : String) (s : Walk) :
    dispatchFieldOp { env with plugin := other } path stages fallbackSource phase s =
      dispatchFieldOp env path stages fallbackSource phase s := by
  rw [Effect.fieldStages] at h
  split_ifs at h with hruns
  · simp only [dispatchFieldOp, dispatchFieldSide, fieldOpAt_congr h]
  · rw [dispatchFieldOp, dispatchFieldOp]
    unfold runsFieldOp at hruns
    split at hruns <;> simp_all

theorem dispatchList_congr
    (h : ∀ e ∈ es, ∀ fallbackSource s, dispatchEffect { env with plugin := other } phase e
      fallbackSource s = dispatchEffect env phase e fallbackSource s)
    (fallbackSource : String) (s : Walk) :
    dispatchList { env with plugin := other } phase es fallbackSource s =
      dispatchList env phase es fallbackSource s := by
  induction es generalizing s with
  | nil => simp only [dispatchList]
  | cons e es ih =>
    obtain ⟨he, hes⟩ := List.forall_mem_cons.1 h
    simp only [dispatchList, he, ih hes]

theorem dispatchBranches_congr
    (h : ∀ e ∈ es, ∀ fallbackSource s, dispatchEffect { env with plugin := other } phase e
      fallbackSource s = dispatchEffect env phase e fallbackSource s)
    (fallbackSource : String) (s : Walk) :
    dispatchBranches { env with plugin := other } phase es fallbackSource s =
      dispatchBranches env phase es fallbackSource s := by
  induction es with
  | nil => simp only [dispatchBranches]
  | cons e es ih =>
    obtain ⟨he, hes⟩ := List.forall_mem_cons.1 h
    simp only [dispatchBranches, he, ih hes]

theorem dispatchEffect_congr (e : Effect)
    (h : ∀ node ∈ nodesOf e, ∀ name ∈ node.ownPlugins phase, other name = env.plugin name)
    (fallbackSource : String) (s : Walk) :
    dispatchEffect { env with plugin := other } phase e fallbackSource s =
      dispatchEffect env phase e fallbackSource s := by
  induction e using Effect.induction generalizing fallbackSource s with
  | allow | deny _ _ | taint _ _ | restrict _ => simp only [dispatchEffect]
  | delegate _ | elicit _ =>
    simp only [dispatchEffect]
    rfl
  | plugin name =>
    have hname := h _ List.mem_cons_self name (by simp [Effect.ownPlugins, Effect.runName])
    simp only [dispatchEffect, hname]
  | fieldOp path stages =>
    simp only [dispatchEffect, dispatchFieldOp_congr path (h _ List.mem_cons_self)]
  | sequential es ih =>
    rw [nodesOf, List.forall_mem_cons] at h
    simp only [dispatchEffect]
    exact dispatchList_congr (fun e he => ih e he fun node hnode =>
      h.2 node (mem_nodesIn.2 ⟨e, he, hnode⟩)) fallbackSource s
  | parallel es ih =>
    rw [nodesOf, List.forall_mem_cons] at h
    have hbranches := dispatchBranches_congr fun e he => ih e he fun node hnode =>
      h.2 node (mem_nodesIn.2 ⟨e, he, hnode⟩)
    simp only [dispatchEffect, hbranches]
    rfl
  | when condition body source ih =>
    rw [nodesOf, List.forall_mem_cons] at h
    have hbody := dispatchList_congr fun e he => ih e he fun node hnode =>
      h.2 node (mem_nodesIn.2 ⟨e, he, hnode⟩)
    simp only [dispatchEffect, hbody]
  | pdp call onAllow onDeny ihAllow ihDeny =>
    rw [nodesOf, List.forall_mem_cons, List.forall_mem_append] at h
    have hallow := dispatchList_congr fun e he => ihAllow e he fun node hnode =>
      h.2.1 node (mem_nodesIn.2 ⟨e, he, hnode⟩)
    have hdeny := dispatchList_congr fun e he => ihDeny e he fun node hnode =>
      h.2.2 node (mem_nodesIn.2 ⟨e, he, hnode⟩)
    simp only [dispatchEffect, hallow, hdeny]
    rfl

theorem evaluateEffects_congr
    (h : ∀ node ∈ nodesIn es, ∀ name ∈ node.ownPlugins phase, other name = env.plugin name)
    (bag : AttributeBag) (payload : RoutePayload) :
    evaluateEffects { env with plugin := other } es bag phase payload =
      evaluateEffects env es bag phase payload := by
  unfold evaluateEffects
  generalize (⟨bag, payload, [], [], false, false, []⟩ : Walk) = s
  induction es generalizing s with
  | nil => rfl
  | cons e es ih =>
    rw [nodesIn, List.forall_mem_append] at h
    simp only [runPhase, dispatchEffect_congr e h.1, ih h.2]

theorem fieldRules_congr {rules : List FieldRule}
    (h : ∀ name ∈ stagePlugins (rules.flatMap FieldRule.stages), other name = env.plugin name)
    (bag : AttributeBag) (side : String) (run : FieldRun) :
    Task.forEach (fieldRule { env with plugin := other } bag phase side) rules run =
      Task.forEach (fieldRule env bag phase side) rules run := by
  refine Task.forEach_congr (fun rule hrule => ?_) run
  have hstages : ∀ name ∈ stagePlugins rule.stages, other name = env.plugin name := fun name hname =>
    h name (List.mem_filterMap.2 ((List.mem_filterMap.1 hname).imp fun stage hstage =>
      ⟨List.mem_flatMap.2 ⟨rule, hrule, hstage.1⟩, hstage.2⟩))
  have hat : fieldRuleAt { env with plugin := other } bag phase rule =
      fieldRuleAt env bag phase rule := by
    funext path run
    simp only [fieldRuleAt, evaluatePipeline, runStages_congr hstages]
  funext run
  simp only [fieldRule, hat]

end Calls

section Coverage

/-- In run steps, in declared pipelines, and in field operations on the side of their phase. -/
def CompiledRoute.mentions (route : CompiledRoute) : List String :=
  route.placed.flatMap (fun place => place.2.ownPlugins place.1) ++ stagePlugins route.declaredStages

/-- The plugins of field operations that run are also named outside of them. -/
def CompiledRoute.FieldOpsNamed (route : CompiledRoute) : Prop :=
  ∀ phase node, (phase, node) ∈ route.placed → ∀ name ∈ stagePlugins (node.fieldStages phase),
    Effect.plugin name ∈ route.nodes ∨ Stage.plugin name ∈ route.declaredStages

variable {name : String} {route : CompiledRoute}

theorem mem_stagePlugins {stages : List Stage} :
    name ∈ stagePlugins stages ↔ Stage.plugin name ∈ stages := by
  rw [stagePlugins, List.mem_filterMap]
  constructor
  · rintro ⟨stage, hstage, hname⟩
    cases stage <;> cases hname
    exact hstage
  · exact fun h => ⟨_, h, rfl⟩

theorem mem_filterMap_runName {nodes : List Effect} :
    name ∈ nodes.filterMap Effect.runName ↔ Effect.plugin name ∈ nodes := by
  rw [List.mem_filterMap]
  constructor
  · rintro ⟨node, hnode, hname⟩
    cases node <;> cases hname
    exact hnode
  · exact fun h => ⟨_, h, rfl⟩

theorem mem_collectPluginNames :
    name ∈ collectPluginNames route ↔
      Effect.plugin name ∈ route.nodes ∨ Stage.plugin name ∈ route.declaredStages := by
  rw [collectPluginNames, List.mem_eraseDups, List.mem_append, mem_filterMap_runName,
    mem_stagePlugins]

theorem mem_nodes {node : Effect} : node ∈ route.nodes ↔ ∃ phase, (phase, node) ∈ route.placed := by
  simp only [CompiledRoute.nodes, CompiledRoute.placed, List.mem_append, List.mem_map,
    Prod.mk.injEq, exists_or]
  simp

theorem mem_mentions :
    name ∈ route.mentions ↔ Effect.plugin name ∈ route.nodes ∨
      (∃ phase node, (phase, node) ∈ route.placed ∧ name ∈ stagePlugins (node.fieldStages phase)) ∨
        Stage.plugin name ∈ route.declaredStages := by
  have hrun : Effect.plugin name ∈ route.nodes ↔
      ∃ phase node, (phase, node) ∈ route.placed ∧ node.runName = some name := by
    rw [← mem_filterMap_runName, List.mem_filterMap, exists_comm]
    simp only [mem_nodes, exists_and_right]
  simp only [CompiledRoute.mentions, List.mem_append, List.mem_flatMap, Prod.exists,
    Effect.ownPlugins, Option.mem_toList, and_or_left, exists_or, or_assoc, hrun,
    ← mem_stagePlugins]

/-- No other plugin is called than those the route mentions.  The plan has them all exactly when
those of field operations are named outside of them too, and the capabilities of the plan's plugins
are in the union. -/
theorem plugins_covered_iff [Library] (route : CompiledRoute) :
    (∀ {W : Type} (env : Invokers W) other,
      (∀ name ∈ route.mentions, other name = env.plugin name) → ∀ bag payload,
      evaluatePre { env with plugin := other } route bag payload =
          evaluatePre env route bag payload ∧
        evaluatePost { env with plugin := other } route bag payload =
          evaluatePost env route bag payload) ∧
    ((∀ name ∈ route.mentions, name ∈ collectPluginNames route) ↔ route.FieldOpsNamed) ∧
    ∀ registry overrides, ∀ name ∈ collectPluginNames route,
      ∀ capabilities ∈ effectiveCapabilities registry overrides name,
        ∀ capability ∈ capabilities, capability ∈ routeCapabilityUnion route registry overrides := by
  refine ⟨fun env other h bag payload => ?_, ?_, ?_⟩
  · obtain ⟨hnodes, hstages⟩ := List.forall_mem_append.1 h
    have hown : ∀ place ∈ route.placed, ∀ name ∈ place.2.ownPlugins place.1,
        other name = env.plugin name :=
      fun place hplace name hname => hnodes name (List.mem_flatMap.2 ⟨place, hplace, hname⟩)
    obtain ⟨hpre, hpost⟩ := List.forall_mem_append.1 hown
    rw [List.forall_mem_map] at hpre hpost
    rw [CompiledRoute.declaredStages, List.flatMap_append, stagePlugins, List.filterMap_append,
      List.forall_mem_append] at hstages
    simp only [evaluatePre, evaluatePost, argsRules, resultRules, fieldRules_congr hstages.1,
      fieldRules_congr hstages.2, evaluateEffects_congr hpre, evaluateEffects_congr hpost, and_self]
  · simp only [mem_mentions, mem_collectPluginNames]
    constructor
    · exact fun h phase node hnode name hname =>
        h name (.inr (.inl ⟨phase, node, hnode, hname⟩))
    · rintro h name (hrun | ⟨phase, node, hnode, hname⟩ | hdeclared)
      · exact .inl hrun
      · exact h phase node hnode name hname
      · exact .inr hdeclared
  · intro registry overrides name hname capabilities hcapabilities capability hcapability
    have hmem : capability ∈ ((collectPluginNames route).filterMap
        (effectiveCapabilities registry overrides)).flatten.toFinset := by
      rw [List.mem_toFinset, List.mem_flatten]
      exact ⟨capabilities, List.mem_filterMap.2 ⟨name, hname, hcapabilities⟩, hcapability⟩
    simp only [routeCapabilityUnion, Finset.mem_union]
    exact .inl (.inl (.inl hmem))

def maskingRoute : CompiledRoute :=
  ⟨"tool", [], [.when .always [.fieldOp "args.x" [.plugin "mask"]] "pre_invocation[0]"], [], []⟩

/-- The plugin of a field operation is not in the plan, and the missing plugin denies. -/
theorem mask_not_covered :
    "mask" ∉ collectPluginNames maskingRoute ∧
      ((@evaluatePre Library.ascii Unit { pendingInvokers .allow with
        plugin := fun name _ _ => pure (.error (.notFound name)) } maskingRoute .empty
          ⟨.object [("x", .null)], none, .default⟩ ()).1.map fun outcome =>
        outcome.decision.decision) =
      .ok (.deny (some "plugin `mask` error: no plugin invoker available for `mask`")
        "pre_invocation[0]") := by
  decide

end Coverage

section Modes

variable (modeFor : String → Option PluginMode)

/-- The plugins run among `nodes` are registered with a mode that is safe in parallel. -/
def SafeRuns (nodes : List Effect) : Prop :=
  ∀ name, .plugin name ∈ nodes → (modeFor name).any isSafeInParallel = true

/-- Those below the `parallel:` nodes are, and all when `nodes` are below one. -/
def SafeIn (underParallel : Bool) (nodes : List Effect) : Prop :=
  (∀ es, .parallel es ∈ nodes → SafeRuns modeFor (nodesIn es)) ∧
    (underParallel = true → SafeRuns modeFor nodes)

variable {modeFor} {location : String} {underParallel : Bool}

theorem safeIn_append {xs ys : List Effect} : SafeIn modeFor underParallel (xs ++ ys) ↔
    SafeIn modeFor underParallel xs ∧ SafeIn modeFor underParallel ys := by
  simp only [SafeIn, SafeRuns, List.mem_append, or_imp, forall_and]
  tauto

theorem walkEffects_eq_nil_iff {es : List Effect} (h : ∀ e ∈ es, ∀ underParallel,
      walkEffect modeFor location underParallel e = [] ↔ SafeIn modeFor underParallel (nodesOf e)) :
    walkEffects modeFor location underParallel es = [] ↔
      SafeIn modeFor underParallel (nodesIn es) := by
  induction es with
  | nil => simp [walkEffects, nodesIn, SafeIn, SafeRuns]
  | cons e es ih =>
    rw [List.forall_mem_cons] at h
    rw [walkEffects, nodesIn, List.append_eq_nil_iff, h.1, ih h.2, safeIn_append]

theorem walkEffect_eq_nil_iff (e : Effect) (underParallel : Bool) :
    walkEffect modeFor location underParallel e = [] ↔
      SafeIn modeFor underParallel (nodesOf e) := by
  induction e using Effect.induction generalizing underParallel with
  | plugin name =>
    simp only [walkEffect, checkPluginMode, nodesOf, SafeIn, SafeRuns]
    cases underParallel <;> cases hmode : modeFor name <;> simp [hmode]
  | parallel es ih =>
    rw [walkEffect, walkEffects_eq_nil_iff ih, nodesOf]
    simp only [SafeIn, SafeRuns, forall_const, List.mem_cons, Effect.parallel.injEq,
      forall_eq_or_imp, reduceCtorEq, false_or]
    tauto
  | sequential es ih | when _ es _ ih =>
    rw [walkEffect, walkEffects_eq_nil_iff ih, nodesOf]
    simp [SafeIn, SafeRuns]
  | pdp _ onAllow onDeny ihAllow ihDeny =>
    rw [walkEffect, List.append_eq_nil_iff, walkEffects_eq_nil_iff ihAllow,
      walkEffects_eq_nil_iff ihDeny, nodesOf, ← safeIn_append]
    simp [SafeIn, SafeRuns]
  | _ => simp [walkEffect, nodesOf, SafeIn, SafeRuns]

theorem phaseErrors_eq_nil_iff (location : Effect × ℕ → String) (es : List Effect) (k : ℕ) :
    ((es.zipIdx k).flatMap fun x => walkEffect modeFor (location x) false x.1) = [] ↔
      SafeIn modeFor false (nodesIn es) := by
  induction es generalizing k with
  | nil => simp [nodesIn, SafeIn]
  | cons e es ih =>
    rw [List.zipIdx_cons, List.flatMap_cons, List.append_eq_nil_iff, walkEffect_eq_nil_iff, ih,
      nodesIn, safeIn_append]

/-- A route is accepted exactly when every plugin that a `parallel:` block runs, however deep, has a
mode that is safe there. -/
theorem validateParallelPluginModes_iff (modeFor : String → Option PluginMode)
    (route : CompiledRoute) :
    validateParallelPluginModes modeFor route = .ok () ↔
      ∀ es, .parallel es ∈ route.nodes → ∀ name, .plugin name ∈ nodesIn es →
        (modeFor name).any isSafeInParallel = true := by
  have herrors : parallelModeErrors modeFor route = [] ↔ SafeIn modeFor false route.nodes := by
    simp only [parallelModeErrors, List.append_eq_nil_iff, phaseErrors_eq_nil_iff,
      CompiledRoute.nodes, safeIn_append]
  simp only [SafeIn, SafeRuns, Bool.false_eq_true, false_imp_iff, and_true] at herrors
  rw [← herrors, validateParallelPluginModes]
  split_ifs with h <;> simp [h]

end Modes

end PraxisPolicy
