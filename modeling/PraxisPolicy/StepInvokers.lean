import PraxisPolicy.BranchScheduling
import PraxisPolicy.PredicateEvaluation
import PraxisPolicy.WorldTasks

/-!
# What a policy step calls and hands over

`Invokers` is everything outside the evaluator.  Each is a task over a world that the model says
nothing about.
-/

namespace PraxisPolicy

open BinaryFloats HashMaps JsonValues WorldTasks

def maxStructuredDepth : ℕ := 128

def inputTooDeepCode : String := "pdp.input_too_deep"

def llmRequestMissingCode : String := "pdp.llm_request_missing"

mutual

/-- Its own children are at `childDepth`. -/
def exceedsDepthFrom (limit childDepth : ℕ) : Json → Bool
  | .array items => childDepth > limit || anyExceedsDepth limit (childDepth + 1) items
  | .object members => childDepth > limit || anyMemberExceedsDepth limit (childDepth + 1) members
  | _ => false

def anyExceedsDepth (limit childDepth : ℕ) : List Json → Bool
  | [] => false
  | v :: vs => exceedsDepthFrom limit childDepth v || anyExceedsDepth limit childDepth vs

def anyMemberExceedsDepth (limit childDepth : ℕ) : List (String × Json) → Bool
  | [] => false
  | (_, v) :: es => exceedsDepthFrom limit childDepth v || anyMemberExceedsDepth limit childDepth es

end

def exceedsDepth (value : Json) (limit : ℕ) : Bool := exceedsDepthFrom limit 2 value

/-- With its depth verdict. -/
structure StructuredInput where
  llmRequest : Option Json
  args : Option Json
  tooDeep : Bool

def StructuredInput.new (llmRequest args : Option Json) : StructuredInput where
  llmRequest := llmRequest
  args := args
  tooDeep := ([llmRequest, args].filterMap id).any (exceedsDepth · maxStructuredDepth)

def StructuredInput.default : StructuredInput := ⟨none, none, false⟩

structure RoutePayload where
  args : Json
  result : Option Json
  structured : StructuredInput

/-- `none` when the reference is unusable. -/
def StringSetSpec.resolve [Library] (spec : StringSetSpec) (bag : AttributeBag) :
    Option (List String) :=
  match spec with
  | .literal values => some values
  | .ref path =>
    (bag.resolveKey path).bind fun key =>
      match bag.get key with
      | some (.stringSet s) => some (s.sort (· ≤ ·))
      | some (.string s) => some [s]
      | _ => none

def RestrictResolveError.toString (e : RestrictResolveError) : String :=
  "restrict: `" ++ e.field ++ "` reference `" ++ e.path ++
    "` did not resolve to a set — denying (a deny-list cannot fail open)"

/-- An unresolved allow-list becomes empty; an unresolved deny-list is an error. -/
def RestrictSpec.resolve [Library] (spec : RestrictSpec) (bag : AttributeBag) :
    Except RestrictResolveError CandidateConstraint :=
  let allowList (s : Option StringSetSpec) := s.map fun s => (s.resolve bag).getD []
  let withDeny (denyModels : List String) : CandidateConstraint :=
    { allowModels := allowList spec.allowModels
      denyModels := denyModels
      allowRegions := allowList spec.allowRegions
      allowSites := allowList spec.allowSites
      maxCostTier := spec.maxCostTier
      custom := spec.custom
      onEmpty := spec.onEmpty }
  match spec.denyModels with
  | none => .ok (withDeny [])
  | some deny =>
    match deny.resolve bag with
    | some values => .ok (withDeny values)
    | none => .error ⟨"deny_models", match deny with | .ref path => path | .literal _ => ""⟩

def CandidateConstraint.isEmpty (c : CandidateConstraint) : Bool :=
  c.allowModels.isNone && c.denyModels.isEmpty && c.allowRegions.isNone && c.allowSites.isNone &&
    c.maxCostTier.isNone && decide (c.custom = ∅)

inductive DispatchPhase where
  | pre | post
  deriving DecidableEq, Repr

inductive PluginInvocation where
  | step (phase : DispatchPhase)
  | field (name : String) (value : Json) (phase : DispatchPhase)

structure PluginOutcome where
  decision : Decision
  taints : List TaintEvent
  modifiedValue : Option Json

inductive PluginError where
  | notFound (name : String)
  | dispatch (message : String)
  deriving DecidableEq, Repr

def PluginError.toString : PluginError → String
  | .notFound name => "no plugin invoker available for `" ++ name ++ "`"
  | .dispatch message => "plugin dispatch failed: " ++ message

structure PdpDecision where
  decision : Decision
  diagnostics : List String
  deriving DecidableEq, Repr

def PdpDialect.debug [Library] : PdpDialect → String
  | .cedar => "Cedar"
  | .opa => "Opa"
  | .authZen => "AuthZen"
  | .neMo => "NeMo"
  | .cel => "Cel"
  | .custom name => "Custom(" ++ Library.debugStr name ++ ")"

inductive PdpError where
  | noResolver (dialect : PdpDialect)
  | dispatch (message : String)
  deriving DecidableEq, Repr

def PdpError.toString [Library] : PdpError → String
  | .noResolver dialect => "no PDP resolver registered for dialect " ++ dialect.debug
  | .dispatch message => "PDP dispatch failed: " ++ message

/-- How a spawned resolver call ends. -/
inductive PdpReply where
  | answered (answer : Except PdpError PdpDecision)
  | timedOut
  | panicked (message : String)
  | cancelled (message : String)

def Yaml.untag : Yaml → Yaml
  | .tagged _ value => value.untag
  | value => value

def Yaml.stringEntry (name : String) : List (Yaml × Yaml) → Option Yaml
  | [] => none
  | (.string key, value) :: rest => if key = name then some value else stringEntry name rest
  | _ :: rest => stringEntry name rest

def PdpCall.requiresLlmRequest (call : PdpCall) : Bool :=
  match call.args.untag with
  | .mapping entries =>
    match (Yaml.stringEntry "require_llm_request" entries).map Yaml.untag with
    | some (.bool b) => b
    | _ => false
  | _ => false

structure DelegationOutcome where
  decision : Decision
  grantedPermissions : List String
  grantedAudience : Option String
  grantedExpiresAt : Option String
  deriving DecidableEq, Repr

inductive DelegationError where
  | notFound (name : String)
  | dispatch (message : String)
  | invalidConfig (message : String)
  deriving DecidableEq, Repr

def DelegationError.toString : DelegationError → String
  | .notFound name => "no delegation invoker available for plugin `" ++ name ++ "`"
  | .dispatch message => "delegation dispatch failed: " ++ message
  | .invalidConfig message => "invalid delegation config: " ++ message

structure ElicitationDispatch where
  id : String
  approver : Option String
  intentId : Option String
  expiresAt : Option String
  deriving DecidableEq, Repr

inductive ElicitationOutcome where
  | approved | denied
  deriving DecidableEq, Repr

inductive ElicitationStatus where
  | pending
  | resolved (outcome : ElicitationOutcome)
  | expired
  deriving DecidableEq, Repr

structure ElicitationValidation where
  valid : Bool
  approver : Option String
  intentId : Option String
  reason : Option String
  deriving DecidableEq, Repr

structure PendingElicitation where
  id : String
  pluginName : String
  approver : Option String
  intentId : Option String
  channel : Option String
  expiresAt : Option String
  source : String
  deriving DecidableEq, Repr

inductive ElicitationError where
  | notFound (name : String)
  | handler (message : String)
  | handlerViolation (code reason : String)
  | storeUnavailable (code reason : String)
  deriving DecidableEq, Repr

def ElicitationError.toString : ElicitationError → String
  | .notFound name => "no elicitation invoker available for plugin `" ++ name ++ "`"
  | .handler message => "elicitation handler error: " ++ message
  | .handlerViolation code reason => "elicitation handler error " ++ code ++ ": " ++ reason
  | .storeUnavailable code reason =>
    "elicitation storage unavailable " ++ code ++ ": " ++ reason

def ElicitationError.code : ElicitationError → Option String
  | .handlerViolation code _ | .storeUnavailable code _ => some code
  | _ => none

/-- `parsePredicate` reads the scope text of an elicitation. -/
structure Invokers (W : Type) where
  pdp : PdpCall → AttributeBag → StructuredInput → W → PdpReply × W
  plugin : String → AttributeBag → PluginInvocation → Task W (Except PluginError PluginOutcome)
  delegate : DelegateStep → Task W (Except DelegationError DelegationOutcome)
  dispatch : ElicitStep → String → Task W (Except ElicitationError ElicitationDispatch)
  check : ElicitStep → String → Task W (Except ElicitationError ElicitationStatus)
  validate : ElicitStep → String → Task W (Except ElicitationError ElicitationValidation)
  schedule : (n : ℕ) → W → Schedule n × W
  parsePredicate : String → Except String Expression

def pendingInvokers (decision : Decision) : Invokers Unit where
  pdp _ _ _ := fun w => (.answered (.ok ⟨decision, []⟩), w)
  plugin _ _ _ := pure (.ok ⟨.allow, [], none⟩)
  delegate _ := pure (.ok ⟨.allow, [], none, none⟩)
  dispatch _ _ := pure (.ok ⟨"elicitation-1", none, none, none⟩)
  check _ _ := pure (.ok .pending)
  validate _ _ := pure (.ok ⟨true, none, none, none⟩)
  schedule n := fun w => (joinInOrder n, w)
  parsePredicate _ := .ok .always

end PraxisPolicy
