import PraxisPolicy.LineFraming

/-!
# The file exporter of audit records

A write may fail after any number of its bytes.  Every byte of the file here carries the number of
the record it was written for, so that lines holding bytes of two records can be told.
-/

namespace PraxisPolicy

open LineFraming

section Framing

structure SerializedRecord where
  bytes : List UInt8
  deriving DecidableEq, Repr

inductive ExportError where
  | io (exporter : String)
  | framing (exporter reason : String)
  | config (message : String)
  deriving DecidableEq, Repr

def validateLines (exporter : String) : List SerializedRecord → Except ExportError Unit
  | [] => .ok ()
  | record :: batch =>
    if newline ∈ record.bytes then
      .error (.framing exporter "record contains a newline, so line framing would split it")
    else validateLines exporter batch

def frameLine (exporter : String) (buf : List UInt8) (record : SerializedRecord) :
    Except ExportError (List UInt8) := do
  validateLines exporter [record]
  return buf ++ record.bytes ++ [newline]

def frameBatch (exporter : String) (batch : List SerializedRecord) :
    Except ExportError (List UInt8) :=
  batch.foldlM (frameLine exporter) []

variable {exporter : String}

theorem frameBatch_eq_ok {batch : List SerializedRecord} {framed : List UInt8} :
    frameBatch exporter batch = .ok framed ↔ (∀ record ∈ batch, newline ∉ record.bytes) ∧
      batch.flatMap (fun record => record.bytes ++ [newline]) = framed := by
  have hgo : ∀ buf, batch.foldlM (frameLine exporter) buf = .ok framed ↔
      (∀ record ∈ batch, newline ∉ record.bytes) ∧
        buf ++ batch.flatMap (fun record => record.bytes ++ [newline]) = framed := by
    induction batch with
    | nil => simp [pure, Except.pure]
    | cons record batch ih =>
      intro buf
      rw [List.foldlM_cons, List.forall_mem_cons]
      by_cases h : newline ∈ record.bytes
      · have herr : ∃ e, frameLine exporter buf record = .error e := by
          simp [frameLine, validateLines, h, bind, Except.bind]
        obtain ⟨e, herr⟩ := herr
        simp [herr, h, bind, Except.bind]
      · have hok : frameLine exporter buf record = .ok (buf ++ record.bytes ++ [newline]) := by
          simp [frameLine, validateLines, h, bind, Except.bind, pure, Except.pure]
        simp [hok, bind, Except.bind, ih, h]
  simpa [frameBatch] using hgo []

end Framing

inductive FsyncPolicy where
  | never
  | batch
  | always
  deriving DecidableEq, Repr

structure FileExporter where
  path : String
  fsync : FsyncPolicy
  parentSyncPending : Bool
  deriving DecidableEq, Repr

def FileExporter.label (path : String) : String := "file:" ++ path

/-- `open`: `appendable` is whether the system opens the file for appending. -/
def FileExporter.open (path : String) (fsync : FsyncPolicy) (appendable : Bool) :
    Except ExportError FileExporter :=
  if path.toList.head? = some '/' then
    if appendable then .ok ⟨path, fsync, true⟩ else .error (.io (FileExporter.label path))
  else .error (.config ("file exporter path `" ++ path ++ "` must be absolute"))

/-- What a call does under the lock. -/
inductive ExportStep where
  | write (batch : List SerializedRecord)
  | sync
  deriving DecidableEq, Repr

inductive ExportCall where
  | records (batch : List SerializedRecord)
  | flush
  deriving DecidableEq, Repr

def ExportStep.records : ExportStep → List SerializedRecord
  | .write batch => batch
  | .sync => []

def ExportCall.batch : ExportCall → List SerializedRecord
  | .records batch => batch
  | .flush => []

def ExportCall.steps (fsync : FsyncPolicy) : ExportCall → List ExportStep
  | .records batch => match fsync with
    | .always => batch.flatMap fun record => [.write [record], .sync]
    | .batch => [.write batch, .sync]
    | .never => [.write batch]
  | .flush => [.sync]

def ExportCall.validate : ExportCall → Except ExportError Unit
  | .records batch => validateLines "file" batch
  | .flush => .ok ()

def FileExporter.syncFileAndParent (exporter : FileExporter) (file parent : Bool) :
    Except ExportError FileExporter :=
  if !file then .error (.io (FileExporter.label exporter.path))
  else if exporter.parentSyncPending && !parent then
    .error (.io (FileExporter.label exporter.path))
  else .ok { exporter with parentSyncPending := false }

theorem ExportCall.records_steps (call : ExportCall) (fsync : FsyncPolicy) :
    (call.steps fsync).flatMap ExportStep.records = call.batch := by
  cases call with
  | flush => rfl
  | records batch =>
    cases fsync with
    | never => simp [steps, ExportStep.records, ExportCall.batch]
    | batch => simp [steps, ExportStep.records, ExportCall.batch]
    | always =>
      simp only [steps, ExportCall.batch, List.flatMap_assoc, List.flatMap_cons, ExportStep.records,
        List.flatMap_nil, List.append_nil]
      exact List.flatMap_singleton' batch

/-- What the call still has to do, and which records it has written. -/
structure HeldCall where
  id : ℕ
  call : ExportCall
  todo : List ExportStep
  stored : List SerializedRecord

/-- A byte, and the number of the record it was written for. -/
abbrev StoredByte := UInt8 × Option ℕ

structure ExportState where
  path : String
  exporter : Option FileExporter
  file : List StoredByte
  /-- Records handed to a write so far: their numbers. -/
  recordsWritten : ℕ
  started : ℕ
  waiting : ℕ → Option ExportCall
  held : Option HeldCall
  lockOrder : List ℕ
  returned : List (ℕ × ExportCall × Except ExportError Unit)

def ExportState.before (path : String) (content : List UInt8) : ExportState where
  path := path
  exporter := none
  file := content.map (·, none)
  recordsWritten := 0
  started := 0
  waiting _ := none
  held := none
  lockOrder := []
  returned := []

inductive ExportEvent where
  | opened (fsync : FsyncPolicy) (appendable : Bool)
  | call (call : ExportCall)
  | lock (id : ℕ)
  /-- It fails after that many bytes, if a number is given. -/
  | write (failsAfter : Option ℕ)
  | sync (file parent : Bool)
  | finish
  /-- The process dies, in a write after that many of its bytes. -/
  | crash (written : ℕ)
  deriving DecidableEq, Repr

/-- The lines of a batch, each byte with its record. -/
def taggedLines (first : ℕ) : List SerializedRecord → List (List StoredByte)
  | [] => []
  | record :: batch =>
    (record.bytes ++ [newline]).map (·, some first) :: taggedLines (first + 1) batch

def ExportState.nextBatch (s : ExportState) : List SerializedRecord := match s.held with
  | some ⟨_, _, .write batch :: _, _⟩ => match frameBatch "file" batch with
    | .ok _ => batch
    | .error _ => []
  | _ => []

def ExportState.nextWrite (s : ExportState) : List StoredByte :=
  (taggedLines s.recordsWritten s.nextBatch).flatten

/-- The bytes that an event puts into the file. -/
def ExportState.reaching (s : ExportState) : ExportEvent → List StoredByte
  | .write none => s.nextWrite
  | .write (some n) => s.nextWrite.take n
  | .crash n => s.nextWrite.take n
  | _ => []

def ExportState.return (s : ExportState) (held : HeldCall) (result : Except ExportError Unit) :
    ExportState :=
  { s with held := none, returned := s.returned ++ [(held.id, held.call, result)] }

def ExportState.step (s : ExportState) : ExportEvent → ExportState
  | .opened fsync appendable => match s.exporter with
    | some _ => s
    | none => match FileExporter.open s.path fsync appendable with
      | .ok exporter => { s with exporter := some exporter }
      | .error _ => s
  | .call call => match s.exporter with
    | none => s
    | some _ => match call.validate with
      | .ok () => { s with
          started := s.started + 1
          waiting := Function.update s.waiting s.started (some call) }
      | .error e => { s with
          started := s.started + 1
          returned := s.returned ++ [(s.started, call, .error e)] }
  | .lock id => match s.exporter, s.held, s.waiting id with
    | some exporter, none, some call => { s with
        waiting := Function.update s.waiting id none
        held := some ⟨id, call, call.steps exporter.fsync, []⟩
        lockOrder := s.lockOrder ++ [id] }
    | _, _, _ => s
  | .write failsAfter => match s.held with
    | some ⟨id, call, .write batch :: todo, stored⟩ =>
      let written := { s with
        file := s.file ++ s.reaching (.write failsAfter)
        recordsWritten := s.recordsWritten + s.nextBatch.length }
      match frameBatch "file" batch, failsAfter with
      | .error e, _ => written.return ⟨id, call, todo, stored⟩ (.error e)
      | .ok _, some _ => written.return ⟨id, call, todo, stored⟩ (.error (.io "file"))
      | .ok _, none => { written with held := some ⟨id, call, todo, stored ++ batch⟩ }
    | _ => s
  | .sync file parent => match s.held, s.exporter with
    | some ⟨id, call, .sync :: todo, stored⟩, some exporter =>
      match exporter.syncFileAndParent file parent with
      | .error e => s.return ⟨id, call, todo, stored⟩ (.error e)
      | .ok synced => { s with exporter := some synced, held := some ⟨id, call, todo, stored⟩ }
    | _, _ => s
  | .finish => match s.held with
    | some ⟨id, call, [], stored⟩ => s.return ⟨id, call, [], stored⟩ (.ok ())
    | _ => s
  | .crash written => { s with
      exporter := none
      file := s.file ++ s.reaching (.crash written)
      recordsWritten := s.recordsWritten + s.nextBatch.length
      waiting := fun _ => none
      held := none }

def ExportState.acknowledged (s : ExportState) : List (ℕ × List SerializedRecord) :=
  s.returned.filterMap fun entry => match entry with
    | (id, call, .ok ()) => some (id, call.batch)
    | (_, _, .error _) => none

def isNewline (byte : StoredByte) : Bool := byte.1 == newline

def ExportState.lines (s : ExportState) : List (List UInt8) :=
  (finished isNewline s.file).map fun line => (line.map Prod.fst).dropLast

/-- All bytes were written for one record, or were all there before. -/
def Unmixed (line : List StoredByte) : Prop := ∃ owner, ∀ byte ∈ line, byte.2 = owner

/-- Acknowledged records are whole lines in the order of the lock, and no line mixes two records. -/
structure AcknowledgedWhole (s : ExportState) : Prop where
  lines : ((s.acknowledged.flatMap Prod.snd).map SerializedRecord.bytes).Sublist s.lines
  order : (s.acknowledged.map Prod.fst).Sublist s.lockOrder
  finished_unmixed : ∀ line ∈ finished isNewline s.file, Unmixed line
  rest_unmixed : Unmixed (unfinished isNewline s.file)

/-- Bytes go into the file only behind a line end. -/
def BehindLineEnd (s : ExportState) (event : ExportEvent) : Prop :=
  s.reaching event ≠ [] → unfinished isNewline s.file = []

end PraxisPolicy
