import PraxisPolicy.BranchScheduling
import PraxisPolicy.DecisionLogs
import PraxisPolicy.ExtensionMerge

/-!
# The five-phase plugin executor

A handler is an arbitrary function from what it is given to how its task ends, so a run of the
executor covers every result of every plugin.
-/

namespace PraxisPolicy.Executor

open HashMaps JsonValues

inductive PluginError where
  | crypto (source : String)
  | execution (pluginName message : String) (code : Option String)
      (details : HashMap String KeyedJson) (protoErrorCode : Option ℤ)
  | timeout (pluginName : String) (timeoutMs : ℕ) (protoErrorCode : Option ℤ)
  | violation (pluginName : String) (denial : PluginViolation)
  | config (message : String)
  | unknownHook (hookType : String)

def PluginError.toString : PluginError → String
  | .crypto source => "Policy crypto backend validation failed: " ++ source
  | .execution pluginName message _ _ _ => "plugin '" ++ pluginName ++ "' failed: " ++ message
  | .timeout pluginName timeoutMs _ =>
    "plugin '" ++ pluginName ++ "' timed out after " ++ Nat.repr timeoutMs ++ "ms"
  | .violation pluginName denial => "plugin '" ++ pluginName ++ "' denied: " ++ denial.reason
  | .config message => "configuration error: " ++ message
  | .unknownHook hookType => "unknown hook type: " ++ hookType

structure PluginErrorRecord where
  pluginName : String
  message : String
  code : Option String
  details : HashMap String KeyedJson
  protoErrorCode : Option ℤ

def PluginErrorRecord.from : PluginError → PluginErrorRecord
  | .crypto _ =>
    ⟨"", "Policy crypto backend validation failed", some "policy.crypto_failed", ∅, none⟩
  | .execution pluginName message code details protoErrorCode =>
    ⟨pluginName, message, code, details, protoErrorCode⟩
  | .timeout pluginName timeoutMs protoErrorCode =>
    ⟨pluginName, "plugin timed out after " ++ Nat.repr timeoutMs ++ "ms", some "timeout", ∅,
      protoErrorCode⟩
  | .violation pluginName denial =>
    ⟨pluginName, "plugin denied: " ++ denial.reason, some denial.code, denial.details,
      denial.protoErrorCode⟩
  | .config message => ⟨"", message, some "config", ∅, none⟩
  | .unknownHook hookType =>
    ⟨"", "unknown hook type: " ++ hookType, some "unknown_hook", ∅, none⟩

inductive OnError where
  | fail
  | ignore
  | disable
  deriving DecidableEq, Repr

structure IdentityPayload where
  subject : Option SubjectExtension
  client : Option ClientExtension
  callerWorkload : Option WorkloadIdentity
  credentialDeclined : Bool

/-- An identity payload with the rest of it, or one of another type. -/
inductive PluginPayload (P : Type) where
  | identity (resolved : IdentityPayload) (rest : P)
  | other (payload : P)

def PluginPayload.credentialDeclined {P : Type} : PluginPayload P → Bool
  | .identity resolved _ => resolved.credentialDeclined
  | .other _ => false

def PluginPayload.unrecognized {P : Type} : PluginPayload P → Bool
  | .identity resolved _ =>
    resolved.subject.isNone && resolved.client.isNone && resolved.callerWorkload.isNone
  | .other _ => false

structure PluginContext where
  localState : HashMap String Json
  globalState : HashMap String Json

structure PluginContextTable where
  globalState : HashMap String Json
  localStates : HashMap ℕ (HashMap String Json)

def PluginContextTable.new : PluginContextTable := ⟨∅, ∅⟩

def PluginContextTable.snapshotContext (table : PluginContextTable) (pluginId : ℕ) :
    PluginContext :=
  ⟨(table.localStates.lookup pluginId).getD ∅, table.globalState⟩

def PluginContextTable.storeContext (table : PluginContextTable) (pluginId : ℕ)
    (context : PluginContext) : PluginContextTable :=
  ⟨context.globalState, table.localStates.insert pluginId context.localState⟩

section Entries

variable [Contents] (P : Type)

structure ErasedResultFields where
  continueProcessing : Bool
  modifiedPayload : Option (PluginPayload P)
  modifiedExtensions : Option OwnedExtensions
  violation : Option PluginViolation

/-- A result of an unexpected type cannot be read. -/
inductive ContainedOutcome where
  | success (result : Option (ErasedResultFields P)) (context : PluginContext)
  | error (error : PluginError) (context : PluginContext)
  | timeout (context : PluginContext)
  | panic (message : String)
  | lost

inductive EffectLogSlot where
  | unrecorded
  | recorded (pluginName : String)
  | notPermitted (mode : PluginMode) (pluginName : String)
  deriving DecidableEq, Repr

/-- `disabled` is the switch of `on_error: disable`. -/
structure PluginRef where
  id : ℕ
  name : String
  trustedMode : PluginMode
  onError : OnError
  capabilities : Finset String
  disabled : Bool
  deriving DecidableEq

def PluginRef.mode (pluginRef : PluginRef) : PluginMode :=
  if pluginRef.disabled then .disabled else pluginRef.trustedMode

structure HookEntry where
  pluginRef : PluginRef
  handler : PluginPayload P → Extensions → EffectLogSlot → PluginContext → ContainedOutcome P

variable {P}

/-- Disabled plugins are in none. -/
def groupByMode (entries : List (HookEntry P)) (mode : PluginMode) : List (HookEntry P) :=
  entries.filter fun entry => entry.pluginRef.mode = mode

structure ExecutorConfig where
  timeoutSeconds : ℕ
  shortCircuitOnDeny : Bool
  effectSink : Bool
  deriving DecidableEq, Repr

def ExecutorConfig.timeoutMs (config : ExecutorConfig) : ℕ :=
  min (config.timeoutSeconds * 1000) (2 ^ 64 - 1)

end Entries

section State

variable [Contents] (P : Type)

/-- With which payload, and how its task ended. -/
structure Invocation where
  entry : HookEntry P
  received : PluginPayload P
  outcome : ContainedOutcome P

structure RunState where
  payload : PluginPayload P
  extensions : Extensions
  contexts : PluginContextTable
  errors : List PluginErrorRecord
  decisions : DecisionLog
  payloadModified : Bool
  credentialDeclined : Bool
  /-- The plugins switched off during the run. -/
  disabled : List ℕ
  /-- The handlers called so far. -/
  invocations : List (Invocation P)

variable {P}

def RunState.record (st : RunState P) (entry : HookEntry P) (action : PluginAction) :
    RunState P :=
  { st with
    decisions := st.decisions.record entry.pluginRef.name entry.pluginRef.trustedMode action }

def RunState.invoke (st : RunState P) (entry : HookEntry P) (outcome : ContainedOutcome P) :
    RunState P :=
  { st with invocations := st.invocations ++ [⟨entry, st.payload, outcome⟩] }

def RunState.storeContext (st : RunState P) (entry : HookEntry P) :
    Option PluginContext → RunState P
  | some context => { st with contexts := st.contexts.storeContext entry.pluginRef.id context }
  | none => st

def RunState.pushError (st : RunState P) (error : PluginError) : RunState P :=
  { st with errors := st.errors ++ [PluginErrorRecord.from error] }

def RunState.disableOn (st : RunState P) (entry : HookEntry P) : RunState P :=
  if entry.pluginRef.onError = .disable then
    { st with disabled := st.disabled ++ [entry.pluginRef.id] }
  else st

end State

def attributed (violation : PluginViolation) (pluginName : String) : PluginViolation :=
  { violation with pluginName := some pluginName }

/-- Made up if it gave none. -/
def denyViolation (code pluginName : String) (violation : Option PluginViolation) :
    PluginViolation :=
  attributed (violation.getD (.new code ("Plugin '" ++ pluginName ++ "' denied"))) pluginName

/-- To the caller, in the decision log, and as a refusal. -/
structure Fault where
  error : PluginError
  action : String
  violation : PluginViolation

def Fault.ofError (pluginName : String) (error : PluginError) : Fault where
  error := error
  action := error.toString
  violation := attributed (.new "plugin_error"
    ("Plugin '" ++ pluginName ++ "' failed: " ++ error.toString)) pluginName

def Fault.ofUnreadable (pluginName : String) : Fault :=
  .ofError pluginName
    (.execution pluginName "handler returned unexpected result type" none ∅ none)

def Fault.ofTimeout (config : ExecutorConfig) (pluginName : String) : Fault where
  error := .timeout pluginName config.timeoutMs none
  action := "timed out"
  violation := attributed (.new "plugin_timeout" ("Plugin '" ++ pluginName ++ "' timed out"))
    pluginName

/-- A panic is a task panic except in the concurrent phase. -/
def Fault.ofPanic (label pluginName message : String) : Fault where
  error := .execution pluginName ("task panicked: " ++ message) (some "panic") ∅ none
  action := label ++ message
  violation := attributed (.new "plugin_panic"
    ("Plugin '" ++ pluginName ++ "' task panicked: " ++ message)) pluginName

/-- A lost task is refused whatever `on_error` says. -/
def Fault.ofLost (pluginName : String) : Fault where
  error := .execution pluginName "task ended without a result" (some "lost") ∅ none
  action := "task ended without a result"
  violation := attributed (.new "executor_invariant" ("Plugin '" ++ pluginName ++
    "' task ended without a result; cannot attribute an allow")) pluginName

section Serial

variable [Contents] {P : Type} (config : ExecutorConfig) (canBlock canModify : Bool)

/-- A refusal if the phase and `halting` allow it, a note for the caller otherwise. -/
def RunState.serialFault (st : RunState P) (entry : HookEntry P) (halting : Bool)
    (context : Option PluginContext) (fault : Fault) : RunState P × Option PluginViolation :=
  if halting && canBlock then (st.record entry (.error fault.action), some fault.violation)
  else ((((st.pushError fault.error).disableOn entry).record entry
    (.error fault.action)).storeContext entry context, none)

/-- A decline stays. -/
def RunState.acceptPayload (st : RunState P) : Option (PluginPayload P) → RunState P
  | some payload => { st with
      payload := payload
      payloadModified := true
      credentialDeclined := st.credentialDeclined || payload.credentialDeclined }
  | none => st

def RunState.acceptExtensions (st : RunState P) (capabilities : Finset String) :
    Option OwnedExtensions → RunState P
  | some owned => { st with extensions := st.extensions.applyModification capabilities owned }
  | none => st

def modificationAction (st : RunState P) (capabilities : Finset String)
    (result : ErasedResultFields P) : PluginAction :=
  if result.modifiedPayload.isSome then .modifiedPayload
  else if result.modifiedExtensions.any fun owned => st.extensions.accepts capabilities owned then
    .modifiedExtensions
  else .allowed

def serialSlot (pluginRef : PluginRef) : EffectLogSlot :=
  if pluginRef.trustedMode ≠ .sequential ∧ pluginRef.trustedMode ≠ .transform then
    .notPermitted pluginRef.trustedMode pluginRef.name
  else if config.effectSink then .recorded pluginRef.name
  else .unrecorded

def RunState.serialOutcome (st : RunState P) (entry : HookEntry P) : ContainedOutcome P :=
  entry.handler st.payload (st.extensions.pluginView entry.pluginRef.capabilities)
    (serialSlot config entry.pluginRef) (st.contexts.snapshotContext entry.pluginRef.id)

def RunState.settle (st : RunState P) (entry : HookEntry P) :
    ContainedOutcome P → RunState P × Option PluginViolation
  | .success (some result) context =>
    if !result.continueProcessing && canBlock then
      let violation := denyViolation "plugin_deny" entry.pluginRef.name result.violation
      (st.record entry (.denied violation), some violation)
    else if !result.continueProcessing then
      -- Suppressed: the plugin asked to halt, so its modifications are skipped too.
      ((st.record entry (.denyIgnored
        (denyViolation "plugin_deny" entry.pluginRef.name result.violation))).storeContext entry
          (some context), none)
    else if canModify then
      ((((st.acceptPayload result.modifiedPayload).acceptExtensions entry.pluginRef.capabilities
        result.modifiedExtensions).record entry
          (modificationAction st entry.pluginRef.capabilities result)).storeContext entry
            (some context), none)
    else ((st.record entry .allowed).storeContext entry (some context), none)
  | .success none context =>
    st.serialFault canBlock entry (entry.pluginRef.onError = .fail) (some context)
      (.ofUnreadable entry.pluginRef.name)
  | .error error context =>
    st.serialFault canBlock entry (entry.pluginRef.onError = .fail) (some context)
      (.ofError entry.pluginRef.name error)
  | .timeout context =>
    st.serialFault canBlock entry (entry.pluginRef.onError = .fail) (some context)
      (.ofTimeout config entry.pluginRef.name)
  | .panic message =>
    st.serialFault canBlock entry (entry.pluginRef.onError = .fail) none
      (.ofPanic "task panicked: " entry.pluginRef.name message)
  | .lost => st.serialFault canBlock entry true none (.ofLost entry.pluginRef.name)

def RunState.serialStep (st : RunState P) (entry : HookEntry P) :
    RunState P × Option PluginViolation :=
  let outcome := st.serialOutcome config entry
  (st.invoke entry outcome).settle config canBlock canModify entry outcome

def runSerialPhase : List (HookEntry P) → RunState P → RunState P × Option PluginViolation
  | [], st => (st, none)
  | entry :: entries, st =>
    match st.serialStep config canBlock canModify entry with
    | (st', some violation) => (st', some violation)
    | (st', none) => runSerialPhase entries st'

end Serial

section ReadOnly

variable [Contents] {P : Type} (config : ExecutorConfig)

def RunState.readOnlyOutcome (st : RunState P) (entry : HookEntry P) : ContainedOutcome P :=
  entry.handler st.payload (filterExtensions st.extensions entry.pluginRef.capabilities)
    (.notPermitted entry.pluginRef.trustedMode entry.pluginRef.name)
    (st.contexts.snapshotContext entry.pluginRef.id)

/-- Its result is discarded, its objection is not. -/
def auditSuccessAction (pluginName : String) : Option (ErasedResultFields P) → PluginAction
  | some result =>
    if !result.continueProcessing then
      .denyIgnored (denyViolation "plugin_deny" pluginName result.violation)
    else .allowed
  | none => .allowed

def RunState.noteFault (st : RunState P) (entry : HookEntry P) (fault : Fault) : RunState P :=
  ((st.record entry (.error fault.action)).pushError fault.error).disableOn entry

def RunState.observe (st : RunState P) (entry : HookEntry P) :
    ContainedOutcome P → RunState P
  | .success result _ => st.record entry (auditSuccessAction entry.pluginRef.name result)
  | .error error _ => st.noteFault entry (.ofError entry.pluginRef.name error)
  | .timeout _ => st.noteFault entry (.ofTimeout config entry.pluginRef.name)
  | .panic message =>
    st.noteFault entry (.ofPanic "task panicked: " entry.pluginRef.name message)
  | .lost => st.noteFault entry (.ofLost entry.pluginRef.name)

def RunState.refStep (st : RunState P) (entry : HookEntry P) : RunState P :=
  let outcome := st.readOnlyOutcome entry
  (st.invoke entry outcome).observe config entry outcome

def runRefPhase (entries : List (HookEntry P)) (st : RunState P) : RunState P :=
  entries.foldl (RunState.refStep config) st

end ReadOnly

section Concurrent

variable [Contents] {P : Type} (config : ExecutorConfig)

inductive BranchData where
  | allow
  | deny (violation : Option PluginViolation)
  | error (error : PluginError)

def BranchData.isDeny : BranchData → Bool
  | .allow => false
  | .deny _ => true
  | .error _ => false

def ContainedOutcome.timedOut : ContainedOutcome P → Bool
  | .timeout _ => true
  | _ => false

def ContainedOutcome.isLost : ContainedOutcome P → Bool
  | .lost => true
  | _ => false

/-- A branch that times out or is lost has no value; the one given here is not looked at. -/
def branchRun (pluginName : String) : ContainedOutcome P → Except String BranchData
  | .success (some result) _ =>
    if !result.continueProcessing then
      .ok (.deny (result.violation.map fun violation => attributed violation pluginName))
    else .ok .allow
  | .success none _ => .ok (.error
      (.execution pluginName "handler returned unexpected result type" none ∅ none))
  | .error error _ => .ok (.error error)
  | .timeout _ => .ok .allow
  | .panic message => .error message
  | .lost => .ok .allow

def RunState.branchCalls (st : RunState P) (entries : List (HookEntry P)) :
    List (Invocation P) :=
  entries.map fun entry => ⟨entry, st.payload, st.readOnlyOutcome entry⟩

def joinBranches (sched : ∀ n, Schedule n) (calls : List (Invocation P)) :
    List (BranchOutcome BranchData) :=
  let runs := calls.map fun call => branchRun call.entry.pluginRef.name call.outcome
  runBranches runs ⟨some (config.timeoutSeconds * 1000), config.shortCircuitOnDeny⟩
    BranchData.isDeny
    { sched runs.length with late := fun i => (calls[i]?).any fun call => call.outcome.timedOut }

/-- A lost task leaves no outcome of its own. -/
def branchOutcomes (sched : ∀ n, Schedule n) (calls : List (Invocation P)) :
    List (BranchOutcome BranchData) :=
  List.zipWith (fun call outcome => if call.outcome.isLost then .aborted else outcome)
    calls (joinBranches config sched calls)

/-- The first refusal of the phase under `on_error: fail`, a note for the caller otherwise. -/
def concurrentFault (entry : HookEntry P) (fault : Fault)
    (acc : RunState P × Option PluginViolation) : RunState P × Option PluginViolation :=
  let st := acc.1.record entry (.error fault.action)
  if entry.pluginRef.onError = .fail then (st, acc.2.or (some fault.violation))
  else ((st.pushError fault.error).disableOn entry, acc.2)

/-- In input order, the first halting one wins. -/
def concurrentStep (acc : RunState P × Option PluginViolation)
    (branch : Invocation P × BranchOutcome BranchData) : RunState P × Option PluginViolation :=
  let entry := branch.1.entry
  match branch.2 with
  | .completed .allow => (acc.1.record entry .allowed, acc.2)
  | .completed (.deny violation) =>
    let denial := denyViolation "concurrent_deny" entry.pluginRef.name violation
    (acc.1.record entry (.denied denial), acc.2.or (some denial))
  | .completed (.error error) => concurrentFault entry (.ofError entry.pluginRef.name error) acc
  | .timedOut => concurrentFault entry (.ofTimeout config entry.pluginRef.name) acc
  | .panicked message =>
    concurrentFault entry (.ofPanic "panicked: " entry.pluginRef.name message) acc
  | .aborted => (acc.1.record entry .aborted, acc.2)

def branchCountViolation (outcomes entries : ℕ) : PluginViolation :=
  .new "executor_invariant" ("concurrent dispatch produced " ++ Nat.repr outcomes ++
    " outcomes and " ++ Nat.repr entries ++ " on_error entries for " ++ Nat.repr entries ++
    " plugins; cannot attribute results")

def runConcurrentPhase (sched : ∀ n, Schedule n) (entries : List (HookEntry P))
    (st : RunState P) : RunState P × Option PluginViolation :=
  if entries.isEmpty then (st, none)
  else
    let calls := st.branchCalls entries
    let outcomes := branchOutcomes config sched calls
    let called := { st with invocations := st.invocations ++ calls }
    if outcomes.length ≠ entries.length then
      (called, some (branchCountViolation outcomes.length entries.length))
    else (calls.zip outcomes).foldl (concurrentStep config) (called, none)

end Concurrent

section Pipeline

variable [Contents] (P : Type)

structure PipelineResult where
  continueProcessing : Bool
  modifiedPayload : Option (PluginPayload P)
  payloadModified : Bool
  modifiedExtensions : Extensions
  violation : Option PluginViolation
  errors : List PluginErrorRecord
  contextTable : PluginContextTable
  decisionLog : DecisionLog

/-- The result, the background tasks by name and the payload of a refused request, with the handlers
called and the plugins switched off. -/
structure Execution where
  result : PipelineResult P
  background : List String
  refused : Option (PluginPayload P)
  invocations : List (Invocation P)
  disabled : List ℕ

variable {P}

def RunState.allowed (st : RunState P) (background : List String) : Execution P where
  result := ⟨true, some st.payload, st.payloadModified, st.extensions, none, st.errors,
    st.contexts, st.decisions.finalize .allow⟩
  background := background
  refused := none
  invocations := st.invocations
  disabled := st.disabled

def RunState.denied (st : RunState P) (violation : PluginViolation) : Execution P where
  result := ⟨false, none, false, st.extensions, some violation, st.errors, st.contexts,
    st.decisions.finalize (.deny violation)⟩
  background := []
  refused := some st.payload
  invocations := st.invocations
  disabled := st.disabled

def unrecognizedCredential : PluginViolation :=
  .new "auth.unrecognized_credential" "no identity resolver recognized the presented credential"

def RunState.credentialRefused (st : RunState P) : Bool :=
  st.credentialDeclined && st.payload.unrecognized

def RunState.spawnFireAndForget (st : RunState P) (entries : List (HookEntry P)) : RunState P :=
  { st with invocations := st.invocations ++ st.branchCalls entries }

def RunState.entry (payload : PluginPayload P) (extensions : Extensions)
    (contexts : Option PluginContextTable) (decisions : DecisionLog) : RunState P where
  payload := payload
  extensions := extensions
  contexts := contexts.getD .new
  errors := []
  decisions := decisions
  payloadModified := false
  credentialDeclined := payload.credentialDeclined
  disabled := []
  invocations := []

/-- The phases behind the sequential one. -/
def executeRest (config : ExecutorConfig) (sched : ∀ n, Schedule n)
    (entries : List (HookEntry P)) (st : RunState P) : Execution P :=
  let transformed := (runSerialPhase config false true (groupByMode entries .transform) st).1
  let audited := runRefPhase config (groupByMode entries .audit) transformed
  match runConcurrentPhase config sched (groupByMode entries .concurrent) audited with
  | (gated, some violation) => gated.denied violation
  | (gated, none) =>
    if gated.credentialRefused then gated.denied unrecognizedCredential
    else
      let background := groupByMode entries .fireAndForget
      (gated.spawnFireAndForget background).allowed
        (background.map fun entry => entry.pluginRef.name)

def execute (config : ExecutorConfig) (sched : ∀ n, Schedule n) (entries : List (HookEntry P))
    (payload : PluginPayload P) (extensions : Extensions)
    (contexts : Option PluginContextTable) (decisions : DecisionLog) : Execution P :=
  let start := RunState.entry payload extensions contexts decisions
  if entries.isEmpty then start.allowed []
  else
    match runSerialPhase config true true (groupByMode entries .sequential) start with
    | (st, some violation) => st.denied violation
    | (st, none) => executeRest config sched entries st

end Pipeline

end PraxisPolicy.Executor
