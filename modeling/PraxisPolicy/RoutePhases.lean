import PraxisPolicy.EffectDispatch

/-!
# The phases of a route

Field rules run before the effects of their half.  A deny ends its half at once.
-/

namespace PraxisPolicy

open JsonValues WorldTasks

structure RouteDecision where
  decision : Decision
  taints : List TaintEvent
  constraints : List CandidateConstraint
  argsModified : Bool
  resultModified : Bool
  pending : Option PendingElicitation

structure RouteOutcome where
  decision : RouteDecision
  bag : AttributeBag
  payload : RoutePayload

variable [Library] {W : Type}

structure FieldRun where
  root : Json
  taints : List TaintEvent
  modified : Bool

def FieldRun.write (run : FieldRun) (written : Json × Bool) : FieldRun :=
  { run with root := written.1, modified := run.modified || written.2 }

/-- One turn of a loop over the concrete paths of a rule. -/
def fieldRuleAt (env : Invokers W) (bag : AttributeBag) (phase : DispatchPhase) (rule : FieldRule)
    (path : List String) (run : FieldRun) : Task W (FieldRun × Option Decision) :=
  match getConcrete run.root path with
  | none => pure (run, none)
  | some current => do
    let eval ← evaluatePipeline env rule.stages current bag rule.field phase
    let run := { run with taints := run.taints ++ eval.taints }
    match eval.outcome with
    | .pass => return (run, none)
    | .replace value => return (run.write (setConcrete run.root path value), none)
    | .omit => return (run.write (removeConcrete run.root path), none)
    | .deny reason _ => return (run, some (.deny (some reason) rule.source))

def fieldRule (env : Invokers W) (bag : AttributeBag) (phase : DispatchPhase) (side : String)
    (rule : FieldRule) (run : FieldRun) : Task W (FieldRun × Option Decision) :=
  match expandForPipeline run.root rule.field rule.stages with
  | none => pure (run, some (.deny (some (side ++ " field `" ++ rule.field ++
      "` expands to too many elements to redact safely")) rule.source))
  | some paths => Task.forEach (fieldRuleAt env bag phase rule) paths run

/-- The loop of `evaluate_pre` over the rules under `args:`. -/
def argsRules (env : Invokers W) (bag : AttributeBag) :
    List FieldRule → FieldRun → Task W (FieldRun × Option Decision) :=
  Task.forEach (fieldRule env bag .pre "args")

/-- The loop of `evaluate_post` over those under `result:`. -/
def resultRules (env : Invokers W) (bag : AttributeBag) :
    List FieldRule → FieldRun → Task W (FieldRun × Option Decision) :=
  Task.forEach (fieldRule env bag .post "result")

def evaluatePre (env : Invokers W) (route : CompiledRoute) (bag : AttributeBag)
    (payload : RoutePayload) : Task W RouteOutcome := do
  let (run, denied) ← argsRules env bag route.args ⟨payload.args, [], false⟩
  let payload := { payload with args := run.root }
  match denied with
  | some deny => return ⟨⟨deny, run.taints, [], run.modified, false, none⟩, bag, payload⟩
  | none =>
    let (eval, walk) ← evaluateEffects env route.preInvocation bag .pre payload
    return ⟨⟨eval.decision, run.taints ++ eval.taints, eval.constraints,
      run.modified || eval.argsModified, false, eval.pending⟩, walk.bag, walk.payload⟩

def evaluatePost (env : Invokers W) (route : CompiledRoute) (bag : AttributeBag)
    (payload : RoutePayload) : Task W RouteOutcome := do
  let (run, denied) ← match payload.result with
    | some result => resultRules env bag route.result ⟨result, [], false⟩
    | none => pure (⟨.null, [], false⟩, none)
  let payload := { payload with result := payload.result.map fun _ => run.root }
  match denied with
  | some deny => return ⟨⟨deny, run.taints, [], false, run.modified, none⟩, bag, payload⟩
  | none =>
    let (eval, walk) ← evaluateEffects env route.postInvocation bag .post payload
    return ⟨⟨eval.decision, run.taints ++ eval.taints, eval.constraints, false,
      run.modified || eval.resultModified, eval.pending⟩, walk.bag, walk.payload⟩

/-- Both halves; a deny or a suspension before the call ends the route. -/
def evaluateRoute (env : Invokers W) (route : CompiledRoute) (bag : AttributeBag)
    (payload : RoutePayload) : Task W RouteOutcome := do
  let pre ← evaluatePre env route bag payload
  if pre.decision.decision ≠ .allow ∨ pre.decision.pending.isSome then return pre
  else
    let post ← evaluatePost env route pre.bag pre.payload
    return { post with decision := {
      post.decision with
      taints := pre.decision.taints ++ post.decision.taints
      constraints := pre.decision.constraints ++ post.decision.constraints
      argsModified := pre.decision.argsModified } }

end PraxisPolicy
