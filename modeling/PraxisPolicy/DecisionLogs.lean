import PraxisPolicy.HashMaps
import PraxisPolicy.JsonObjects

/-!
# Decision logs

The executor records what each plugin did to a request and how the pipeline ruled on it.
-/

namespace PraxisPolicy

open HashMaps JsonValues

inductive PluginMode where
  | sequential
  | transform
  | audit
  | concurrent
  | fireAndForget
  | disabled
  deriving DecidableEq, Repr

def PluginMode.display : PluginMode → String
  | .sequential => "sequential"
  | .transform => "transform"
  | .audit => "audit"
  | .concurrent => "concurrent"
  | .fireAndForget => "fire_and_forget"
  | .disabled => "disabled"

/-- The framework sets the plugin's name. -/
structure PluginViolation where
  code : String
  reason : String
  description : Option String
  details : HashMap String KeyedJson
  pluginName : Option String
  protoErrorCode : Option ℤ

def PluginViolation.new (code reason : String) : PluginViolation :=
  ⟨code, reason, none, ∅, none, none⟩

inductive PluginAction where
  | allowed
  | denied (violation : PluginViolation)
  | modifiedPayload
  | modifiedExtensions
  | denyIgnored (violation : PluginViolation)
  | aborted
  | error (message : String)

structure DecisionStep where
  pluginName : String
  phase : PluginMode
  action : PluginAction

inductive Verdict where
  | allow
  | deny (violation : PluginViolation)

def Verdict.isDeny : Verdict → Bool
  | .allow => false
  | .deny _ => true

structure Span where
  traceId : String
  spanId : String
  parentSpanId : Option String
  deriving DecidableEq, Repr

/-- What the request arrived with, the steps and the verdict, and its place in an audit stream. -/
structure DecisionLog where
  steps : List DecisionStep
  verdict : Option Verdict
  span : Option Span
  inputLabels : List String
  inputHash : Option String
  outputHash : Option String
  epoch : Option ℕ
  streamId : Option String
  streamSeq : Option ℕ
  emissionSeq : Option ℕ

def DecisionLog.new : DecisionLog := ⟨[], none, none, [], none, none, none, none, none, none⟩

def DecisionLog.record (log : DecisionLog) (pluginName : String) (phase : PluginMode)
    (action : PluginAction) : DecisionLog :=
  { log with steps := log.steps ++ [⟨pluginName, phase, action⟩] }

def DecisionLog.finalize (log : DecisionLog) (verdict : Verdict) : DecisionLog :=
  { log with verdict := some verdict }

def DecisionLog.setOutputHash (log : DecisionLog) (hash : Option String) : DecisionLog :=
  { log with outputHash := hash }

end PraxisPolicy
