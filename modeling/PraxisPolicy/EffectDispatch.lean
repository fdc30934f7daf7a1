import PraxisPolicy.FieldPaths
import PraxisPolicy.PipelineEvaluation

/-!
# Walking an effect tree

Lists stop at the first outcome that is not `continue`.  The branches of a `parallel:` node run on
copies, and only their taints and constraints are merged back.
-/

namespace PraxisPolicy

open HashMaps JsonValues TextScanning WorldTasks

/-- The evaluator's variables during a phase, with the visits made so far. -/
structure Walk where
  bag : AttributeBag
  payload : RoutePayload
  taints : List TaintEvent
  constraints : List CandidateConstraint
  argsModified : Bool
  resultModified : Bool
  visits : List Visit

def Walk.visit (s : Walk) (v : Visit) : Walk := { s with visits := s.visits ++ [v] }

inductive EffectOutcome where
  | continue
  | halt (decision : Decision)
  | pending (bundle : PendingElicitation)

def EffectOutcome.isHalt : EffectOutcome → Bool
  | .halt _ => true
  | _ => false

variable [Library] {W : Type}

def llmRequestMissing : PdpDecision where
  decision := .deny (some "PDP step denied: LLM request document is missing") llmRequestMissingCode
  diagnostics := []

def inputTooDeep : PdpDecision where
  decision := .deny (some ("PDP step denied: structured input nests deeper than " ++
    toString maxStructuredDepth ++ " levels")) inputTooDeepCode
  diagnostics := []

/-- Spawned, so that a panic or a hang becomes an error. -/
def evaluatePdpContained (env : Invokers W) (call : PdpCall) (bag : AttributeBag)
    (structured : StructuredInput) : Task W (Except PdpError PdpDecision) :=
  if call.requiresLlmRequest && structured.llmRequest.isNone then pure (.ok llmRequestMissing)
  else if structured.tooDeep then pure (.ok inputTooDeep)
  else do
    match ← Task.call (env.pdp call bag structured) with
    | .answered answer => return answer
    | .timedOut => return .error (.dispatch "PDP timed out")
    | .panicked message => return .error (.dispatch ("PDP task panicked: " ++ message))
    | .cancelled message => return .error (.dispatch ("PDP task cancelled: " ++ message))

def recordGrant (outcome : DelegationOutcome) (bag : AttributeBag) : AttributeBag :=
  let bag := bag.set "delegation.granted" (.bool true)
  let bag := if outcome.grantedPermissions.isEmpty then bag
    else bag.set "delegation.granted.permissions"
      (.stringSet outcome.grantedPermissions.toFinset)
  let bag := match outcome.grantedAudience with
    | some aud => bag.set "delegation.granted.audience" (.string aud)
    | none => bag
  match outcome.grantedExpiresAt with
  | some exp => bag.set "delegation.granted.expires_at" (.string exp)
  | none => bag

def DelegateStep.continuesOnError (step : DelegateStep) : Bool :=
  toAsciiLowercase (step.onError.getD "deny") == "continue"

def dispatchDelegation (env : Invokers W) (step : DelegateStep) (s : Walk) :
    Task W (EffectOutcome × Walk) := do
  let answer ← env.delegate step
  let s := s.visit (.delegate step answer)
  match answer with
  | .ok outcome =>
    match outcome.decision with
    | .allow => return (.continue, { s with bag := recordGrant outcome s.bag })
    | deny => return (if step.continuesOnError then .continue else .halt deny, s)
  | .error e =>
    return (if step.continuesOnError then .continue
      else .halt (.deny (some ("delegate `" ++ step.pluginName ++ "` error: " ++ e.toString))
        step.source), s)

def looksLikeAttributeRef (s : String) : Bool :=
  s.toList.contains '.' && (s.toList.head?.any Char.isAlpha) &&
    s.toList.all fun c => c.isAlphanum || c == '_' || c == '.'

def ElicitStep.continuesOnError (step : ElicitStep) : Bool :=
  eqIgnoreAsciiCase (step.onError.getD "deny") "continue"

def ElicitStep.failWithCode (step : ElicitStep) (reason : String) (code : Option String) :
    EffectOutcome :=
  if step.continuesOnError then .continue else .halt (.deny (some reason) (code.getD step.source))

def ElicitStep.fail (step : ElicitStep) (reason : String) : EffectOutcome :=
  step.failWithCode reason none

/-- Unavailable storage denies whatever `on_error` says. -/
def ElicitStep.invocationFailure (step : ElicitStep) (op : String) (error : ElicitationError) :
    EffectOutcome :=
  let reason := "elicitation " ++ op ++ " failed: " ++ error.toString
  match error with
  | .storeUnavailable _ _ => .halt (.deny (some reason) (error.code.getD step.source))
  | _ => step.failWithCode reason error.code

def setOptional (bag : AttributeBag) (key : String) (value : Option String) : AttributeBag :=
  match value with
  | some v => bag.set key (.string v)
  | none => bag

def recordDispatch (step : ElicitStep) (d : ElicitationDispatch) (bag : AttributeBag) :
    AttributeBag :=
  let bag := bag.set "elicitation.id" (.string d.id)
  let bag := bag.set "elicitation.status" (.string "pending")
  let bag := setOptional bag "elicitation.channel" step.channel
  let bag := setOptional bag "elicitation.approver" d.approver
  let bag := setOptional bag "elicitation.intent_id" d.intentId
  setOptional bag "elicitation.expires_at" d.expiresAt

/-- `none` when the scope is satisfied. -/
def scopeFailure (env : Invokers W) (step : ElicitStep) (bag : AttributeBag) : Option String :=
  match step.scope with
  | none => none
  | some source =>
    match env.parsePredicate source with
    | .ok expr =>
      match evalExpression bag expr with
      | .ok true => none
      | .ok false => some ("elicitation scope not satisfied: `" ++ source ++ "`")
      | .error err => some err.reason
    | .error e => some ("elicitation scope `" ++ source ++ "` failed to parse: " ++ e)

/-- After its id is known: check, validate, apply the scope. -/
def settleElicitation (env : Invokers W) (step : ElicitStep) (id : String) (bag : AttributeBag) :
    Task W (EffectOutcome × AttributeBag × ElicitVerdict) := do
  match ← env.check step id with
  | .error e => return (step.invocationFailure "check" e, bag, .failed)
  | .ok .pending =>
    let bag := bag.set "elicitation.status" (.string "pending")
    return (.pending
      { id := id
        pluginName := step.pluginName
        approver := bag.getString "elicitation.approver"
        intentId := bag.getString "elicitation.intent_id"
        channel := step.channel
        expiresAt := bag.getString "elicitation.expires_at"
        source := step.source }, bag, .pending)
  | .ok .expired =>
    let bag := bag.set "elicitation.status" (.string "expired")
    return (step.fail "elicitation expired before a response", bag, .failed)
  | .ok (.resolved .denied) =>
    let bag := bag.set "elicitation.status" (.string "resolved")
    let bag := bag.set "elicitation.outcome" (.string "denied")
    return (.halt (.deny (some "elicitation denied by approver") step.source), bag, .failed)
  | .ok (.resolved .approved) =>
    match ← env.validate step id with
    | .error e => return (step.invocationFailure "validation" e, bag, .failed)
    | .ok validation =>
      if validation.valid then
        match scopeFailure env step bag with
        | some reason => return (step.fail reason, bag, .failed)
        | none =>
          let bag := bag.set "elicitation.status" (.string "resolved")
          let bag := bag.set "elicitation.outcome" (.string "approved")
          let bag := setOptional bag "elicitation.approver" validation.approver
          let bag := setOptional bag "elicitation.intent_id" validation.intentId
          return (.continue, bag, .succeeded)
      else
        let why := validation.reason.getD "response failed validation"
        return (step.fail ("elicitation invalid: " ++ why), bag, .failed)

def resolveFrom (step : ElicitStep) (bag : AttributeBag) : Option String :=
  match bag.getString step.fromRef with
  | some v => some v
  | none => if looksLikeAttributeRef step.fromRef then none else some step.fromRef

/-- Dispatch on first arrival, then settle it. -/
def dispatchElicitation (env : Invokers W) (step : ElicitStep) (bag : AttributeBag) :
    Task W (EffectOutcome × AttributeBag × ElicitVerdict) := do
  match resolveFrom step bag with
  | none =>
    return (step.fail ("elicitation `from` attribute `" ++ step.fromRef ++
      "` did not resolve to an identity"), bag, .failed)
  | some resolvedFrom =>
    match bag.getString "elicitation.id" with
    | some id => settleElicitation env step id bag
    | none =>
      match ← env.dispatch step resolvedFrom with
      | .ok d => settleElicitation env step d.id (recordDispatch step d bag)
      | .error e => return (step.invocationFailure "dispatch" e, bag, .failed)

inductive Side where
  | args | result
  deriving DecidableEq, Repr

def RoutePayload.side (payload : RoutePayload) : Side → Option Json
  | .args => some payload.args
  | .result => payload.result

/-- `change` tells whether it did anything. -/
def Walk.rewrite (s : Walk) (change : Json → Json × Bool) : Side → Walk
  | .args => { s with
      payload := { s.payload with args := (change s.payload.args).1 }
      argsModified := s.argsModified || (change s.payload.args).2 }
  | .result => { s with
      payload := { s.payload with result := s.payload.result.map fun root => (change root).1 }
      resultModified := s.resultModified || s.payload.result.any fun root => (change root).2 }

/-- One turn of the loop of `dispatch_field_op`, at one concrete path. -/
def fieldOpAt (env : Invokers W) (side : Side) (subpath : String) (stages : List Stage)
    (fallbackSource : String) (phase : DispatchPhase) (concrete : List String) (s : Walk) :
    Task W (Walk × Option EffectOutcome) :=
  match (s.payload.side side).bind fun root => getConcrete root concrete with
  | none => pure (s, none)
  | some current => do
    let eval ← evaluatePipeline env stages current s.bag subpath phase
    let s := { s with
      taints := s.taints ++ eval.taints
      visits := s.visits ++ eval.visits ++ [.field subpath eval.outcome] }
    match eval.outcome with
    | .pass => return (s, none)
    | .replace value => return (s.rewrite (setConcrete · concrete value) side, none)
    | .omit => return (s.rewrite (removeConcrete · concrete) side, none)
    | .deny reason _ => return (s, some (.halt (.deny (some reason) fallbackSource)))

def dispatchFieldSide (env : Invokers W) (side : Side) (root : Json) (path subpath : String)
    (stages : List Stage) (fallbackSource : String) (phase : DispatchPhase) (s : Walk) :
    Task W (EffectOutcome × Walk) :=
  match expandForPipeline root subpath stages with
  | none =>
    pure (.halt (.deny (some ("FieldOp path `" ++ path ++
      "` expands to too many elements to redact safely")) fallbackSource),
      s.visit (.fieldTooWide path))
  | some paths => do
    let (s, halted) ←
      Task.forEach (fieldOpAt env side subpath stages fallbackSource phase) paths s
    return (halted.getD .continue, s)

/-- Operations on the side that the phase does not own are dropped. -/
def dispatchFieldOp (env : Invokers W) (path : String) (stages : List Stage)
    (fallbackSource : String) (phase : DispatchPhase) (s : Walk) : Task W (EffectOutcome × Walk) :=
  match stripPrefix "args." path, stripPrefix "result." path with
  | some rest, _ =>
    if phase = .pre then
      dispatchFieldSide env .args s.payload.args path rest stages fallbackSource phase s
    else pure (.continue, s)
  | none, some rest =>
    if phase = .post then
      match s.payload.result with
      | some result => dispatchFieldSide env .result result path rest stages fallbackSource phase s
      | none => pure (.continue, s)
    else pure (.continue, s)
  | none, none =>
    pure (.halt (.deny (some ("FieldOp path `" ++ path ++
      "` must start with `args.` or `result.`")) fallbackSource), s.visit (.badFieldPath path))

def parallelBranchLabel : Effect → String
  | .allow => "allow"
  | .deny _ _ => "deny"
  | .plugin name => "plugin(" ++ name ++ ")"
  | .delegate _ => "delegate"
  | .elicit _ => "elicit"
  | .taint label _ => "taint(" ++ label ++ ")"
  | .restrict _ => "restrict"
  | .fieldOp path _ => "field_op(" ++ path ++ ")"
  | .sequential _ => "sequential"
  | .parallel _ => "parallel"
  | .when _ _ source => "when(" ++ source ++ ")"
  | .pdp call _ _ => "pdp(" ++ call.dialect.debug ++ ")"

/-- Copies of bag and payload, empty accumulators. -/
def Walk.branch (s : Walk) : Walk :=
  { s with taints := [], constraints := [], argsModified := false, resultModified := false,
           visits := [] }

def mergeBranch (fallbackSource : String) (acc : Walk × Option Decision)
    (e : (Effect × BranchOutcome (EffectOutcome × Walk)) × ℕ) : Walk × Option Decision :=
  let (s, firstHalt) := acc
  let name := "parallel branch " ++ toString e.2 ++ " (" ++ parallelBranchLabel e.1.1 ++ ")"
  match e.1.2 with
  | .completed (outcome, branch) =>
    ({ s with taints := s.taints ++ branch.taints
              constraints := s.constraints ++ branch.constraints
              visits := s.visits ++ branch.visits },
      firstHalt.or (match outcome with
        | .halt d => some d
        | _ => none))
  | .aborted => (s, firstHalt)
  | .timedOut =>
    (s, firstHalt.or (some (.deny (some (name ++ " timed out (fail-closed)")) fallbackSource)))
  | .panicked message =>
    (s, firstHalt.or (some (.deny (some (name ++ " panicked (fail-closed): " ++ message))
      "parallel.branch_panic")))

def parallelConfig : BranchConfig := ⟨none, true⟩

def joinBranches (env : Invokers W) (effects : List Effect) (fallbackSource : String)
    (runs : List (Except String (EffectOutcome × Walk))) (s : Walk) :
    Task W (EffectOutcome × Walk) := do
  let sched ← Task.call (env.schedule runs.length)
  let outcomes := runBranches runs parallelConfig (fun r => r.1.isHalt) sched
  let (s, firstHalt) :=
    ((effects.zip outcomes).zipIdx).foldl (mergeBranch fallbackSource) (s, none)
  match firstHalt with
  | some d => return (.halt d, s)
  | none => return (.continue, s)

section Dispatch

variable (env : Invokers W) (phase : DispatchPhase)

mutual

/-- `fallbackSource` is what a deny is attributed to when the effect has no code of its own. -/
def dispatchEffect : Effect → String → Walk → Task W (EffectOutcome × Walk)
  | .allow, _, s => pure (.continue, s)
  | .deny reason code, fallbackSource, s =>
    pure (.halt (.deny reason (code.getD fallbackSource)), s.visit .deny)
  | .plugin name, _, s => do
    let answer ← env.plugin name s.bag (.step phase)
    let s := s.visit (.plugin name answer)
    match answer with
    | .ok outcome =>
      let s := { s with taints := s.taints ++ outcome.taints }
      match outcome.decision with
      | .allow => return (.continue, s)
      | deny => return (.halt deny, s)
    | .error e =>
      return (.halt (.deny (some ("plugin `" ++ name ++ "` error: " ++ e.toString))
        ("plugin:" ++ name)), s)
  | .delegate step, _, s => dispatchDelegation env step s
  | .elicit step, _, s => do
    let (outcome, bag, verdict) ← dispatchElicitation env step s.bag
    return (outcome, { s with bag := bag }.visit (.elicit step verdict))
  | .taint label scopes, _, s =>
    pure (.continue, { s with taints := s.taints ++ [⟨label, scopes⟩] })
  | .restrict spec, fallbackSource, s =>
    let s := s.visit (.restrict (spec.resolve s.bag))
    match spec.resolve s.bag with
    | .ok c =>
      pure (.continue, if c.isEmpty then s else { s with constraints := s.constraints ++ [c] })
    | .error e => pure (.halt (.deny (some e.toString) fallbackSource), s)
  | .fieldOp path stages, fallbackSource, s =>
    dispatchFieldOp env path stages fallbackSource phase s
  | .sequential effects, fallbackSource, s => dispatchList effects fallbackSource s
  | .parallel effects, fallbackSource, s =>
    if effects.isEmpty then pure (.continue, s)
    else do
      let runs ← dispatchBranches effects fallbackSource s
      joinBranches env effects fallbackSource runs s
  | .when condition body source, _, s =>
    let s := s.visit (.when source (evalExpression s.bag condition))
    match evalExpression s.bag condition with
    | .ok false => pure (.continue, s)
    | .error err => pure (.halt (.deny (some err.reason) source), s)
    | .ok true => dispatchList body source s
  | .pdp call onAllow onDeny, fallbackSource, s => do
    let answer ← evaluatePdpContained env call s.bag s.payload.structured
    let s := s.visit (.pdp call answer)
    match answer with
    | .ok result =>
      match result.decision with
      | .allow => dispatchList onAllow fallbackSource s
      | deny => do
        match ← dispatchList onDeny fallbackSource s with
        | (.continue, s) => return (.halt deny, s)
        | other => return other
    | .error e =>
      return (.halt (.deny (some ("PDP error: " ++ e.toString)) ("pdp:" ++ call.dialect.debug)), s)

def dispatchList : List Effect → String → Walk → Task W (EffectOutcome × Walk)
  | [], _, s => pure (.continue, s)
  | e :: es, fallbackSource, s => do
    match ← dispatchEffect e fallbackSource s with
    | (.continue, s) => dispatchList es fallbackSource s
    | other => return other

/-- A panic stays inside its branch. -/
def dispatchBranches :
    List Effect → String → Walk → Task W (List (Except String (EffectOutcome × Walk)))
  | [], _, _ => pure []
  | e :: es, fallbackSource, s => do
    let run ← (dispatchEffect e fallbackSource s.branch).contain
    let runs ← dispatchBranches es fallbackSource s
    return run :: runs

end

end Dispatch

structure StepsEvaluation where
  decision : Decision
  taints : List TaintEvent
  constraints : List CandidateConstraint
  argsModified : Bool
  resultModified : Bool
  pending : Option PendingElicitation

def Walk.finish (s : Walk) (decision : Decision) (pending : Option PendingElicitation) :
    StepsEvaluation :=
  ⟨decision, s.taints, s.constraints, s.argsModified, s.resultModified, pending⟩

def Effect.fallbackSource : Effect → String
  | .when _ _ source => source
  | _ => ""

def runPhase (env : Invokers W) (phase : DispatchPhase) :
    List Effect → Walk → Task W (StepsEvaluation × Walk)
  | [], s => pure (s.finish .allow none, s)
  | e :: es, s => do
    match ← dispatchEffect env phase e e.fallbackSource s with
    | (.continue, s) => runPhase env phase es s
    | (.halt decision, s) => return (s.finish decision none, s)
    | (.pending bundle, s) => return (s.finish .allow (some bundle), s)

def evaluateEffects (env : Invokers W) (effects : List Effect) (bag : AttributeBag)
    (phase : DispatchPhase) (payload : RoutePayload) : Task W (StepsEvaluation × Walk) :=
  runPhase env phase effects ⟨bag, payload, [], [], false, false, []⟩

end PraxisPolicy
