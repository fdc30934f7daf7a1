import PraxisPolicy.DecisionLogs
import PraxisPolicy.EffectLog

/-!
# Audit streams

The steps are the single accesses to the two counters and the stretches between await points of
`emit_decision`, `emit_effect` and `notify`; a caller may be dropped only where it awaits.
-/

namespace PraxisPolicy

inductive StreamKind where
  | decision
  | effect
  deriving DecidableEq, Repr

def StreamKind.label : StreamKind → String
  | .decision => "decision"
  | .effect => "effect"

def composeStreamId : Option String → String → String
  | some ns, kind => ns ++ ":" ++ kind
  | none, kind => kind

/-- What a call hands to the sinks. -/
inductive AuditContent where
  | decision (log : DecisionLog)
  | effect (record : EffectRecord)

def AuditContent.kind : AuditContent → StreamKind
  | .decision _ => .decision
  | .effect _ => .effect

structure StampedRecord where
  content : AuditContent
  epoch : ℕ
  streamId : String
  streamSeq : ℕ
  emissionSeq : ℕ

section Streams

/-- `provenance`: content provenance is on and has its key. -/
structure AuditExecutor where
  sinks : List String
  effectLog : Bool
  epoch : ℕ
  streamNamespace : Option String
  provenance : Bool
  deriving DecidableEq, Repr

/-- `emit_decision`, `emit_effect`, and `notify` for what a sweep settled. -/
inductive EmitCall where
  | decision (log : DecisionLog) (verdict : Verdict) (digest : Option String)
  | effect (plugin : String) (effect : EffectRecord) (state : EffectState)
  | reconciled (record : EffectRecord)

inductive EmitStage where
  /-- It awaits the log. -/
  | appending (record : EffectRecord)
  | stamping (content : AuditContent)
  /-- It has its number of the stream only. -/
  | numbered (content : AuditContent) (streamSeq : ℕ)
  /-- It is about to call a sink. -/
  | handing (record : StampedRecord) (sink : ℕ)
  /-- It awaits a sink. -/
  | awaiting (record : StampedRecord) (sink : ℕ)

/-- Sinks go by their position, calls by an id. -/
structure AuditState where
  streamSeq : StreamKind → ℕ
  emissionSeq : ℕ
  calls : ℕ → Option EmitStage
  handed : ℕ → List StampedRecord
  /-- In the order of the shared counter's accesses. -/
  stamped : List StampedRecord

def AuditState.start : AuditState where
  streamSeq _ := 0
  emissionSeq := 0
  calls _ := none
  handed _ := []
  stamped := []

inductive SinkAnswer where
  | done
  | panicked
  | timedOut
  deriving DecidableEq, Repr

inductive EmitEvent where
  | begin (id : ℕ) (call : EmitCall)
  | appended (id : ℕ) (accepted : Bool)
  /-- The first access of `stamp`. -/
  | number (id : ℕ)
  /-- Its second access. -/
  | stamp (id : ℕ)
  | hand (id : ℕ)
  | answer (id : ℕ) (answer : SinkAnswer)
  /-- The host drops the call. -/
  | drop (id : ℕ)

/-- `fetch_add(1)` leaves this in an `AtomicU64`. -/
def fetchAdd (counter : ℕ) : ℕ := (counter + 1) % 2 ^ 64

def AuditState.setCall (s : AuditState) (id : ℕ) (stage : Option EmitStage) : AuditState :=
  { s with calls := Function.update s.calls id stage }

variable (executor : AuditExecutor)

/-- None when no sink would get the record. -/
def AuditExecutor.toSinks (content : AuditContent) : Option EmitStage :=
  if executor.sinks = [] then none else some (.stamping content)

def AuditExecutor.firstStage : EmitCall → Option EmitStage
  | .decision log verdict digest =>
    let final := log.finalize verdict
    executor.toSinks (.decision (if executor.provenance then final.setOutputHash digest else final))
  | .effect plugin effect state =>
    let record := { effect.intoState state with pluginName := some plugin }
    if executor.effectLog then some (.appending record) else executor.toSinks (.effect record)
  | .reconciled record => executor.toSinks (.effect record)

def AuditExecutor.stampedRecord (s : AuditState) (content : AuditContent) (streamSeq : ℕ) :
    StampedRecord where
  content := content
  epoch := executor.epoch
  streamId := composeStreamId executor.streamNamespace content.kind.label
  streamSeq := streamSeq
  emissionSeq := s.emissionSeq

def AuditExecutor.step (s : AuditState) : EmitEvent → AuditState
  | .begin id call => match s.calls id with
    | none => s.setCall id (executor.firstStage call)
    | some _ => s
  | .appended id accepted => match s.calls id with
    | some (.appending record) =>
      s.setCall id (if accepted then executor.toSinks (.effect record) else none)
    | _ => s
  | .number id => match s.calls id with
    | some (.stamping content) =>
      { s.setCall id (some (.numbered content (s.streamSeq content.kind))) with
        streamSeq := Function.update s.streamSeq content.kind
          (fetchAdd (s.streamSeq content.kind)) }
    | _ => s
  | .stamp id => match s.calls id with
    | some (.numbered content streamSeq) =>
      { s.setCall id (some (.handing (executor.stampedRecord s content streamSeq) 0)) with
        emissionSeq := fetchAdd s.emissionSeq
        stamped := s.stamped ++ [executor.stampedRecord s content streamSeq] }
    | _ => s
  | .hand id => match s.calls id with
    | some (.handing record sink) =>
      { s.setCall id (some (.awaiting record sink)) with
        handed := Function.update s.handed sink (s.handed sink ++ [record]) }
    | _ => s
  -- A sink that panics or is too slow is logged and skipped.
  | .answer id _ => match s.calls id with
    | some (.awaiting record sink) =>
      s.setCall id (if sink + 1 < executor.sinks.length then some (.handing record (sink + 1))
        else none)
    | _ => s
  | .drop id => match s.calls id with
    | some (.appending _) => s.setCall id none
    | some (.awaiting _ _) => s.setCall id none
    | _ => s

end Streams

structure StreamsWhole (executor : AuditExecutor) (s : AuditState) : Prop where
  /-- What a sink was handed of a stream has no gaps. -/
  dense : ∀ sink < executor.sinks.length, ∀ record ∈ s.handed sink, ∀ seq < record.streamSeq,
    ∃ earlier ∈ s.handed sink, earlier.streamId = record.streamId ∧ earlier.streamSeq = seq
  /-- No two records of a stream share a number. -/
  distinct : s.stamped.Pairwise fun a b => a.streamId = b.streamId → a.streamSeq ≠ b.streamSeq
  /-- A sink is handed stamped records, each once. -/
  handed_once : ∀ sink, (s.handed sink).Pairwise fun a b =>
    a.streamId = b.streamId → a.streamSeq ≠ b.streamSeq
  handed_stamped : ∀ sink, ∀ record ∈ s.handed sink, record ∈ s.stamped
  /-- The two numbers agree on the order. -/
  ordered : ∀ a ∈ s.stamped, ∀ b ∈ s.stamped, a.streamId = b.streamId →
    a.streamSeq < b.streamSeq → a.emissionSeq < b.emissionSeq

def EmitStage.numberedIn (kind : StreamKind) : EmitStage → Prop
  | .numbered content _ => content.kind = kind
  | _ => False

/-- Calls of a stream take their two numbers in turn, no counter is at its end, and no call is
dropped before its record is with the last sink. -/
def StampsInTurn (executor : AuditExecutor) (s : AuditState) : EmitEvent → Prop
  | .number id => ∀ content, s.calls id = some (.stamping content) →
      s.streamSeq content.kind + 1 < 2 ^ 64 ∧
      ∀ other stage, s.calls other = some stage → ¬ stage.numberedIn content.kind
  | .stamp id => ∀ content seq, s.calls id = some (.numbered content seq) →
      s.emissionSeq + 1 < 2 ^ 64
  | .drop id => ∀ record sink, s.calls id = some (.awaiting record sink) →
      sink + 1 = executor.sinks.length
  | _ => True

end PraxisPolicy
