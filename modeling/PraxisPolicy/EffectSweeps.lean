import PraxisPolicy.EffectLog
import PraxisPolicy.HashMaps

/-!
# Effects in flight and recovery sweeps

The steps are the stretches between await points of `emit_effect`, `perform_effect`,
`recover_effects_with` and `recover_and_reconcile`.
-/

namespace PraxisPolicy

open HashMaps

/-- Those this process is acting on, and those touched while sweeps run. -/
structure InFlightEffects where
  openKeys : Finset String
  sweeps : ℕ
  touchedDuringSweep : Finset String

def InFlightEffects.open (inFlight : InFlightEffects) (key : String) : InFlightEffects :=
  { inFlight with
    openKeys := insert key inFlight.openKeys
    touchedDuringSweep :=
      if 0 < inFlight.sweeps then insert key inFlight.touchedDuringSweep
      else inFlight.touchedDuringSweep }

def InFlightEffects.close (inFlight : InFlightEffects) (key : String) : InFlightEffects :=
  { inFlight with
    openKeys := inFlight.openKeys.erase key
    touchedDuringSweep :=
      if 0 < inFlight.sweeps then insert key inFlight.touchedDuringSweep
      else inFlight.touchedDuringSweep }

def InFlightEffects.sweep (inFlight : InFlightEffects) : InFlightEffects :=
  { inFlight with sweeps := inFlight.sweeps + 1 }

def InFlightEffects.endSweep (inFlight : InFlightEffects) : InFlightEffects :=
  { inFlight with
    sweeps := inFlight.sweeps - 1
    touchedDuringSweep :=
      if inFlight.sweeps - 1 = 0 then ∅ else inFlight.touchedDuringSweep }

def InFlightEffects.isBusy (inFlight : InFlightEffects) (key : String) : Bool :=
  key ∈ inFlight.openKeys || key ∈ inFlight.touchedDuringSweep

/-- While opening and closing, its record waits for the lock or is being written; when ending, the
append is over and the key not closed yet. -/
inductive CallStage where
  | opening
  | acting
  | closing (state : EffectState)
  | ending
  deriving DecidableEq, Repr

/-- `opened`: its invocation opened the key. -/
structure EffectCall where
  plugin : String
  effect : EffectRecord
  opened : Bool
  stage : CallStage
  deriving DecidableEq, Repr

def EffectCall.record (call : EffectCall) (state : EffectState) : EffectRecord :=
  { call.effect.intoState state with pluginName := some call.plugin }

def EffectCall.pendingRecord (call : EffectCall) : Option EffectRecord := match call.stage with
  | .opening => some (call.record .prepared)
  | .closing state => some (call.record state)
  | .acting => none
  | .ending => none

/-- Its guard is taken; it works through its list, waits for the reconciler, or appends what it
settled. -/
inductive SweepRun where
  | started
  | settling (todo : List EffectRecord)
  | asking (record : EffectRecord) (todo : List EffectRecord)
  | appending (settled : EffectRecord) (todo : List EffectRecord)
  deriving DecidableEq, Repr

inductive AppendOwner where
  | call (key : String)
  | sweep (id : ℕ)
  | nobody
  deriving DecidableEq, Repr

structure EffectEngine where
  log : List EffectRecord
  /-- Every record the log ever received. -/
  received : List EffectRecord
  /-- The append that holds the write lock. -/
  lock : Option (EffectRecord × AppendOwner)
  inFlight : InFlightEffects
  calls : String → Option EffectCall
  startedKeys : Finset String
  sweeps : HashMap ℕ SweepRun

def EffectEngine.start : EffectEngine where
  log := []
  received := []
  lock := none
  inFlight := ⟨∅, 0, ∅⟩
  calls _ := none
  startedKeys := ∅
  sweeps := ∅

inductive EffectEvent where
  /-- `perform_effect`, or `begin_effect` alone. -/
  | perform (plugin : String) (effect : EffectRecord)
  /-- `complete_effect` without an intent of the key before it. -/
  | complete (plugin : String) (effect : EffectRecord) (state : EffectState)
  /-- An append that waits for the lock gets it. -/
  | lock (owner : AppendOwner)
  /-- Whether its record is in the log, and whether it is acknowledged, which needs that it is. -/
  | written (landed acknowledged : Bool)
  /-- The act returns, well or not. -/
  | acted (key : String) (ok : Bool)
  /-- `emit_effect` goes on behind the append. -/
  | close (key : String)
  /-- The invocation is dropped at an await point, or ends. -/
  | drop (key : String)
  /-- `recover_effects` takes its guard. -/
  | sweep (id : ℕ)
  /-- Its `recover` runs. -/
  | read (id : ℕ)
  /-- The next record of the list is held against the keys in flight. -/
  | check (id : ℕ)
  /-- The reconciler answers. -/
  | answer (id : ℕ) (state : EffectState)
  /-- The list is done. -/
  | finish (id : ℕ)
  /-- The sweep fails, or is dropped. -/
  | abandon (id : ℕ)
  /-- The second of a sweep, or an automatic compaction. -/
  | compact
  deriving DecidableEq, Repr

def EffectEngine.setCall (s : EffectEngine) (key : String) (call : Option EffectCall) :
    EffectEngine :=
  { s with calls := Function.update s.calls key call }

def EffectEngine.setSweep (s : EffectEngine) (id : ℕ) (run : SweepRun) : EffectEngine :=
  { s with sweeps := s.sweeps.insert id run }

def EffectEngine.endSweep (s : EffectEngine) (id : ℕ) : EffectEngine :=
  { s with sweeps := s.sweeps.erase id, inFlight := s.inFlight.endSweep }

def EffectEngine.disown (s : EffectEngine) (owner : AppendOwner) : EffectEngine :=
  { s with
    lock := s.lock.map fun job => if job.2 = owner then (job.1, .nobody) else job }

def EffectEngine.deliver (s : EffectEngine) (acknowledged : Bool) : AppendOwner → EffectEngine
  | .nobody => s
  | .call key => match s.calls key with
    | none => s
    | some call => match call.stage with
      | .opening => s.setCall key
          (some { call with stage := if acknowledged then .acting else .ending })
      | .closing _ => s.setCall key (some { call with stage := .ending })
      | _ => s
  | .sweep id => match s.sweeps.lookup id with
    | some (.appending _ todo) =>
      if acknowledged then s.setSweep id (.settling todo) else s.endSweep id
    | _ => s

def EffectEngine.waiting (s : EffectEngine) : AppendOwner → Option EffectRecord
  | .nobody => none
  | .call key => (s.calls key).bind EffectCall.pendingRecord
  | .sweep id => match s.sweeps.lookup id with
    | some (.appending settled _) => some settled
    | _ => none

def EffectEngine.step (s : EffectEngine) : EffectEvent → EffectEngine
  | .perform plugin effect =>
    if effect.key ∈ s.startedKeys then s
    else { s with
      startedKeys := insert effect.key s.startedKeys
      inFlight := s.inFlight.open effect.key
      calls := Function.update s.calls effect.key (some ⟨plugin, effect, true, .opening⟩) }
  | .complete plugin effect state =>
    if effect.key ∈ s.startedKeys ∨ state = .prepared then s
    else { s with
      startedKeys := insert effect.key s.startedKeys
      calls := Function.update s.calls effect.key (some ⟨plugin, effect, false, .closing state⟩) }
  | .lock owner => match s.lock, s.waiting owner with
    | none, some record => { s with lock := some (record, owner) }
    | _, _ => s
  | .written landed acknowledged => match s.lock with
    | none => s
    | some (record, owner) =>
      let arrived := if landed || acknowledged then [record] else []
      { s with
        lock := none
        log := s.log ++ arrived
        received := s.received ++ arrived }.deliver acknowledged owner
  | .acted key ok => match s.calls key with
    | none => s
    | some call =>
      if call.stage = .acting then
        s.setCall key (some { call with stage := .closing (if ok then .confirmed else .unknown) })
      else s
  | .close key => match s.calls key with
    | none => s
    | some call =>
      if call.stage = .ending then { s.setCall key none with inFlight := s.inFlight.close key }
      else s
  | .drop key => match s.calls key with
    | none => s
    | some call =>
      let dropped := { s.setCall key none with
        inFlight := if call.opened then s.inFlight.close key else s.inFlight }
      dropped.disown (.call key)
  | .sweep id =>
    if id ∈ s.sweeps then s else { s.setSweep id .started with inFlight := s.inFlight.sweep }
  | .read id => match s.lock, s.sweeps.lookup id with
    | none, some .started =>
      { s with log := unresolvedRecords s.log }.setSweep id (.settling (unresolvedRecords s.log))
    | _, _ => s
  | .check id => match s.sweeps.lookup id with
    | some (.settling (record :: todo)) =>
      if s.inFlight.isBusy record.key then s.setSweep id (.settling todo)
      else s.setSweep id (.asking record todo)
    | _ => s
  | .answer id state => match s.sweeps.lookup id with
    | some (.asking record todo) =>
      if state.terminal then s.setSweep id (.appending (record.intoState state) todo)
      else s.setSweep id (.settling todo)
    | _ => s
  | .finish id => match s.sweeps.lookup id with
    | some (.settling []) => s.endSweep id
    | _ => s
  | .abandon id => match s.sweeps.lookup id with
    | some _ => (s.endSweep id).disown (.sweep id)
    | none => s
  | .compact => match s.lock with
    | none => { s with log := unresolvedRecords s.log }
    | some _ => s

/-- The keys of the terminal records received. -/
def EffectEngine.terminals (s : EffectEngine) : List String := resolvedKeys s.received

def SweepRun.current : SweepRun → Option EffectRecord
  | .started => none
  | .settling _ => none
  | .asking record _ => some record
  | .appending settled _ => some settled

def SweepRun.todo : SweepRun → List EffectRecord
  | .started => []
  | .settling todo => todo
  | .asking _ todo => todo
  | .appending _ todo => todo

/-- A sweep reads the log only while no other is between reading it and its end, and an outcome
follows an intent of the same call. -/
def SweepsInTurnAndIntended (s : EffectEngine) : EffectEvent → Prop
  | .read id => ∀ other run, s.sweeps.lookup other = some run → other ≠ id → run = .started
  | .complete _ _ _ => False
  | _ => True

end PraxisPolicy
