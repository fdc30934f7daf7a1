import PraxisPolicy.StepInvokers

/-!
# Field pipelines

A pipeline runs its stages from left to right on one value.  `Visit` records what an evaluation came
across; no branch of the modelled code reads the visits.
-/

namespace PraxisPolicy

open JsonValues TextScanning WorldTasks

inductive FieldOutcome where
  | pass
  | replace (value : Json)
  | omit
  | deny (reason : String) (stageIndex : ℕ)

inductive ElicitVerdict where
  | succeeded | pending | failed
  deriving DecidableEq, Repr

/-- Something an evaluation reached, with the answer it got. -/
inductive Visit where
  | deny
  | plugin (name : String) (answer : Except PluginError PluginOutcome)
  | pdp (call : PdpCall) (answer : Except PdpError PdpDecision)
  | when (source : String) (value : Except Unorderable Bool)
  | restrict (answer : Except RestrictResolveError CandidateConstraint)
  | badFieldPath (path : String)
  | fieldTooWide (path : String)
  | field (path : String) (outcome : FieldOutcome)
  | delegate (step : DelegateStep) (answer : Except DelegationError DelegationOutcome)
  | elicit (step : ElicitStep) (verdict : ElicitVerdict)

structure PipelineEvaluation where
  outcome : FieldOutcome
  taints : List TaintEvent
  /-- The plugin stages that ran. -/
  visits : List Visit

section Stages

def TypeCheck.debug : TypeCheck → String
  | .str => "Str"
  | .int => "Int"
  | .bool => "Bool"
  | .float => "Float"
  | .email => "Email"
  | .url => "Url"
  | .uuid => "Uuid"

def debugBound {α : Type} [ToString α] : Option α → String
  | none => "None"
  | some a => "Some(" ++ toString a ++ ")"

/-- The shape 8-4-4-4-12 of hexadecimal digits. -/
def isUuidShape (s : String) : Bool :=
  s.toList.length == 36 && s.toList.zipIdx.all fun (c, i) =>
    if i = 8 ∨ i = 13 ∨ i = 18 ∨ i = 23 then c == '-'
    else c.isDigit || ('a' ≤ c && c ≤ 'f') || ('A' ≤ c && c ≤ 'F')

def typeCheck (check : TypeCheck) (v : Json) : Bool :=
  match check, v with
  | .str, .string _ => true
  | .int, .number n => n.isI64
  | .bool, .bool _ => true
  | .float, .number n => n.isF64 || n.isI64
  | .email, .string s => s.toList.contains '@' && s.toList.contains '.'
  | .url, .string s =>
    (stripPrefix "http://" s).isSome || (stripPrefix "https://" s).isSome
  | .uuid, .string s => isUuidShape s
  | _, _ => false

def valueKind : Json → String
  | .null => "null"
  | .bool _ => "bool"
  | .number n => if n.isI64 then "int" else "float"
  | .string _ => "string"
  | .array _ => "array"
  | .object _ => "object"

def redactionMarker : Json := .string "[REDACTED]"

def outside {α : Type} [LT α] [DecidableLT α] (min max : Option α) (a : α) : Bool :=
  min.any (fun m => decide (a < m)) || max.any (fun m => decide (m < a))

inductive StageStep where
  | keep
  | change (value : Json)
  | mark (taint : TaintEvent) (change : Option Json)
  | omit
  | deny (reason : String)

variable [Library]

/-- A plugin stage has no step here. -/
def localStage (bag : AttributeBag) (current : Json) : Stage → Option StageStep
  | .type check => some <|
    if typeCheck check current then .keep
    else .deny ("expected " ++ check.debug ++ ", got " ++ valueKind current)
  | .length min max => some <|
    match current with
    | .string s =>
      if outside min max s.toList.length then
        .deny ("length " ++ toString s.toList.length ++ " outside [" ++ debugBound min ++ ", " ++
          debugBound max ++ "]")
      else .keep
    | v => .deny ("len(...) requires string value, got " ++ valueKind v)
  | .range min max => some <|
    match current with
    | .number n =>
      match n.asI64 with
      | some i =>
        if outside min max i then
          .deny ("value " ++ toString i ++ " outside [" ++ debugBound min ++ ", " ++
            debugBound max ++ "]")
        else .keep
      | none => .deny ("range requires integer value, got " ++ valueKind current)
    | v => .deny ("range requires integer value, got " ++ valueKind v)
  | .enum values => some <|
    match current with
    | .string s =>
      if values.contains s then .keep
      else .deny ("value `" ++ s ++ "` not in enum [" ++
        String.intercalate ", " (values.map Library.debugStr) ++ "]")
    | v => .deny ("enum(...) requires string value, got " ++ valueKind v)
  | .regex pattern => some <|
    match Library.regex pattern with
    | .error e => .deny ("invalid regex `" ++ pattern ++ "`: " ++ e)
    | .ok isMatch =>
      match current with
      | .string s =>
        if isMatch s then .keep else .deny ("value did not match regex `" ++ pattern ++ "`")
      | v => .deny ("regex requires string value, got " ++ valueKind v)
  | .validate name => some <|
    .deny ("`validate(" ++ name ++ ")` is not implemented; use `regex(...)` or `run(" ++ name ++
      ")` instead")
  | .mask keepLast => some <|
    match current with
    | .string s =>
      let chars := s.toList
      let maskCount := chars.length - min keepLast chars.length
      .change (.string (String.ofList (List.replicate maskCount '*' ++ chars.drop maskCount)))
    | v => .deny ("mask(...) requires string value, got " ++ valueKind v)
  | .redact condition => some <|
    match condition with
    | none => .change redactionMarker
    | some expr =>
      match evalExpression bag expr with
      | .ok true => .change redactionMarker
      | .ok false => .keep
      | .error err => .deny err.reason
  | .omit => some .omit
  | .hash => some <| .change (.string ("hash:" ++ Library.hashHex (Library.jsonText current)))
  | .taint label scopes => some <| .mark ⟨label, scopes⟩ none
  | .scan .piiDetect => some <| .mark ⟨"PII", [.session]⟩ none
  | .scan .piiRedact => some <| .mark ⟨"PII", [.session]⟩ (some redactionMarker)
  | .scan .injectionScan => some <| .mark ⟨"injection", [.session]⟩ none
  | .plugin _ => none

end Stages

section Pipeline

variable [Library] {W : Type}

/-- `current` is the value so far, `replaced` whether a stage changed it. -/
def runStages (env : Invokers W) (bag : AttributeBag) (fieldName : String)
    (phase : DispatchPhase) :
    List Stage → ℕ → Json → Bool → List TaintEvent → List Visit → Task W PipelineEvaluation
  | [], _, current, replaced, taints, visits =>
    pure ⟨if replaced then .replace current else .pass, taints, visits⟩
  | stage :: stages, idx, current, replaced, taints, visits =>
    match stage with
    | .plugin name => do
      let answer ← env.plugin name bag (.field fieldName current phase)
      let visits := visits ++ [.plugin name answer]
      match answer with
      | .ok outcome =>
        let taints := taints ++ outcome.taints
        match outcome.decision with
        | .allow =>
          match outcome.modifiedValue with
          | some value =>
            runStages env bag fieldName phase stages (idx + 1) value true taints visits
          | none =>
            runStages env bag fieldName phase stages (idx + 1) current replaced taints visits
        | .deny reason _ =>
          pure ⟨.deny (reason.getD ("plugin `" ++ name ++ "` denied")) idx, taints, visits⟩
      | .error e =>
        pure ⟨.deny ("plugin `" ++ name ++ "` error: " ++ e.toString) idx, taints, visits⟩
    | stage =>
      match localStage bag current stage with
      | some (.change value) =>
        runStages env bag fieldName phase stages (idx + 1) value true taints visits
      | some (.mark taint none) =>
        runStages env bag fieldName phase stages (idx + 1) current replaced
          (taints ++ [taint]) visits
      | some (.mark taint (some value)) =>
        runStages env bag fieldName phase stages (idx + 1) value true (taints ++ [taint]) visits
      | some .omit => pure ⟨.omit, taints, visits⟩
      | some (.deny reason) => pure ⟨.deny reason idx, taints, visits⟩
      | some .keep | none =>
        runStages env bag fieldName phase stages (idx + 1) current replaced taints visits

def evaluatePipeline (env : Invokers W) (stages : List Stage) (value : Json)
    (bag : AttributeBag) (fieldName : String) (phase : DispatchPhase) :
    Task W PipelineEvaluation :=
  runStages env bag fieldName phase stages 0 value false [] []

end Pipeline

end PraxisPolicy
