import PraxisPolicy.AuditExport
import PraxisPolicy.StepRuns

/-!
# Acknowledged audit records are lines of the file

A write adds its records as lines of their own when the file ends a line before it.  What a
broken-off write leaves behind makes the next acknowledged record share its line.
-/

namespace PraxisPolicy

open LineFraming StepRuns

theorem isLine_taggedLines {batch : List SerializedRecord}
    (h : ∀ record ∈ batch, newline ∉ record.bytes) (first : ℕ) :
    ∀ line ∈ taggedLines first batch, IsLine isNewline line := by
  induction batch generalizing first with
  | nil => simp [taggedLines]
  | cons record batch ih =>
    rw [List.forall_mem_cons] at h
    rw [taggedLines, List.forall_mem_cons]
    refine ⟨⟨record.bytes.map (·, some first), (newline, some first), by simp, rfl, ?_⟩,
      ih h.2 (first + 1)⟩
    intro byte hbyte
    obtain ⟨b, hb, rfl⟩ := List.mem_map.1 hbyte
    have hne : b ≠ newline := fun heq => h.1 (heq ▸ hb)
    simpa [isNewline] using hne

theorem unmixed_taggedLines (first : ℕ) (batch : List SerializedRecord) :
    ∀ line ∈ taggedLines first batch, Unmixed line := by
  induction batch generalizing first with
  | nil => simp [taggedLines]
  | cons record batch ih =>
    rw [taggedLines, List.forall_mem_cons]
    refine ⟨⟨some first, ?_⟩, ih (first + 1)⟩
    intro byte hbyte
    obtain ⟨b, -, rfl⟩ := List.mem_map.1 hbyte
    rfl

theorem content_taggedLines (first : ℕ) (batch : List SerializedRecord) :
    (taggedLines first batch).map (fun line => (line.map Prod.fst).dropLast) =
      batch.map SerializedRecord.bytes := by
  induction batch generalizing first with
  | nil => rfl
  | cons record batch ih => simp [taggedLines, ih, Function.comp_def]

theorem nextBatch_valid (s : ExportState) : ∀ record ∈ s.nextBatch, newline ∉ record.bytes := by
  unfold ExportState.nextBatch
  split
  · split
    · rename_i hframed
      exact (frameBatch_eq_ok.1 hframed).1
    · simp
  · simp

theorem reaching_eq_take (s : ExportState) (event : ExportEvent) :
    ∃ n, s.reaching event = s.nextWrite.take n := by
  unfold ExportState.reaching
  split
  · exact ⟨_, (List.take_length).symm⟩
  · exact ⟨_, rfl⟩
  · exact ⟨_, rfl⟩
  · exact ⟨0, rfl⟩

theorem unmixed_reaching (s : ExportState) (event : ExportEvent) :
    (∀ line ∈ finished isNewline (s.reaching event), Unmixed line) ∧
      Unmixed (unfinished isNewline (s.reaching event)) := by
  obtain ⟨n, hn⟩ := reaching_eq_take s event
  have hline := isLine_taggedLines (nextBatch_valid s) s.recordsWritten
  have hunmixed := unmixed_taggedLines s.recordsWritten s.nextBatch
  obtain ⟨k, hfinished, hrest⟩ := cut_take_lines hline n
  rw [hn, ExportState.nextWrite, hfinished]
  refine ⟨fun line hmem => hunmixed line (List.mem_of_mem_take hmem), ?_⟩
  rcases hrest with hnil | ⟨line, hmem, hpre⟩
  · rw [hnil]
    exact ⟨none, by simp⟩
  · obtain ⟨owner, howner⟩ := hunmixed line hmem
    exact ⟨owner, fun byte hbyte => howner byte (hpre.subset hbyte)⟩

theorem step_file (s : ExportState) (event : ExportEvent) :
    (s.step event).file = s.file ++ s.reaching event := by
  cases event with
  | opened fsync appendable =>
    simp only [ExportState.step, ExportState.reaching, List.append_nil]
    split
    · rfl
    · split <;> rfl
  | call call =>
    simp only [ExportState.step, ExportState.reaching, List.append_nil]
    split
    · rfl
    · split <;> rfl
  | lock id =>
    simp only [ExportState.step, ExportState.reaching, List.append_nil]
    split <;> rfl
  | write failsAfter =>
    simp only [ExportState.step]
    split
    · split <;> rfl
    · rename_i hheld
      -- without a write to do there is no batch, so nothing reaches the file
      have hnone : s.nextBatch = [] := by
        unfold ExportState.nextBatch
        split
        · exact absurd ‹_› (hheld _ _ _ _ _)
        · rfl
      cases failsAfter <;> simp [ExportState.reaching, ExportState.nextWrite, hnone, taggedLines]
  | sync file parent =>
    simp only [ExportState.step, ExportState.reaching, List.append_nil]
    split
    · split <;> rfl
    · rfl
  | finish =>
    simp only [ExportState.step, ExportState.reaching, List.append_nil]
    split <;> rfl
  | crash written => rfl

theorem step_finished {s : ExportState} {event : ExportEvent} (hok : BehindLineEnd s event) :
    finished isNewline (s.step event).file =
      finished isNewline s.file ++ finished isNewline (s.reaching event) ∧
    (unfinished isNewline (s.step event).file = unfinished isNewline s.file ∨
      unfinished isNewline (s.step event).file = unfinished isNewline (s.reaching event)) := by
  rw [step_file]
  by_cases hnil : s.reaching event = []
  · rw [hnil, List.append_nil]
    exact ⟨(List.append_nil _).symm, .inl rfl⟩
  · obtain ⟨hfinished, hrest⟩ := cut_append (hok hnil) (s.reaching event)
    exact ⟨hfinished, .inr hrest⟩

section Calls

/-- What an event does to the call with the lock and to the calls that returned. -/
inductive CallMove (s : ExportState) (event : ExportEvent) (t : ExportState) : Prop
  | quiet (hheld : t.held = s.held) (horder : t.lockOrder = s.lockOrder)
    (hack : t.acknowledged = s.acknowledged)
  | locked (id : ℕ) (call : ExportCall) (fsync : FsyncPolicy) (hfree : s.held = none)
    (hheld : t.held = some ⟨id, call, call.steps fsync, []⟩)
    (horder : t.lockOrder = s.lockOrder ++ [id]) (hack : t.acknowledged = s.acknowledged)
  | wrote (id : ℕ) (call : ExportCall) (todo : List ExportStep) (stored : List SerializedRecord)
    (hfrom : s.held = some ⟨id, call, .write s.nextBatch :: todo, stored⟩)
    (hall : s.reaching event = s.nextWrite)
    (hheld : t.held = some ⟨id, call, todo, stored ++ s.nextBatch⟩)
    (horder : t.lockOrder = s.lockOrder) (hack : t.acknowledged = s.acknowledged)
  | synced (id : ℕ) (call : ExportCall) (todo : List ExportStep) (stored : List SerializedRecord)
    (hfrom : s.held = some ⟨id, call, .sync :: todo, stored⟩)
    (hheld : t.held = some ⟨id, call, todo, stored⟩)
    (horder : t.lockOrder = s.lockOrder) (hack : t.acknowledged = s.acknowledged)
  | ended (hheld : t.held = none) (horder : t.lockOrder = s.lockOrder)
    (hack : t.acknowledged = s.acknowledged)
  | acknowledged (id : ℕ) (call : ExportCall) (stored : List SerializedRecord)
    (hfrom : s.held = some ⟨id, call, [], stored⟩) (hheld : t.held = none)
    (horder : t.lockOrder = s.lockOrder)
    (hack : t.acknowledged = s.acknowledged ++ [(id, call.batch)])

theorem acknowledged_append_error (s : ExportState) (id : ℕ) (call : ExportCall) (e : ExportError) :
    ExportState.acknowledged { s with returned := s.returned ++ [(id, call, .error e)] } =
      s.acknowledged := by
  simp [ExportState.acknowledged]

/-- A call is acknowledged only once it has done all it had to do. -/
theorem callMove (s : ExportState) (event : ExportEvent) : CallMove s event (s.step event) := by
  cases event with
  | opened fsync appendable =>
    rw [ExportState.step]
    split
    · exact .quiet rfl rfl rfl
    · split <;> exact .quiet rfl rfl rfl
  | call call =>
    rw [ExportState.step]
    split
    · exact .quiet rfl rfl rfl
    · split
      · exact .quiet rfl rfl rfl
      · exact .quiet rfl rfl (acknowledged_append_error s s.started call _)
  | lock id =>
    rw [ExportState.step]
    split
    · rename_i exporter call _ hfree _
      exact .locked id call exporter.fsync hfree rfl rfl rfl
    · exact .quiet rfl rfl rfl
  | write failsAfter =>
    simp only [ExportState.step]
    split
    · rename_i id call batch todo stored hheld
      split
      · exact .ended rfl rfl (acknowledged_append_error s id call _)
      · exact .ended rfl rfl (acknowledged_append_error s id call _)
      · rename_i framed hframed
        have hbatch : s.nextBatch = batch := by simp [ExportState.nextBatch, hheld, hframed]
        exact .wrote id call todo stored (by rw [hheld, hbatch]) rfl (by rw [hbatch]) rfl rfl
    · exact .quiet rfl rfl rfl
  | sync file parent =>
    rw [ExportState.step]
    split
    · rename_i id call todo stored exporter hheld _
      split
      · exact .ended rfl rfl (acknowledged_append_error s id call _)
      · exact .synced id call todo stored hheld rfl rfl rfl
    · exact .quiet rfl rfl rfl
  | finish =>
    rw [ExportState.step]
    split
    · rename_i id call stored hheld
      exact .acknowledged id call stored hheld rfl rfl
        (by simp [ExportState.acknowledged, ExportState.return])
    · exact .quiet rfl rfl rfl
  | crash written => exact .ended rfl rfl rfl

def ExportState.storedNow (s : ExportState) : List SerializedRecord :=
  (s.held.map HeldCall.stored).getD []

structure ExportKept (s : ExportState) : Prop where
  stored : ((s.acknowledged.flatMap Prod.snd ++ s.storedNow).map
    SerializedRecord.bytes).Sublist s.lines
  order : (s.acknowledged.map Prod.fst ++ (s.held.map HeldCall.id).toList).Sublist s.lockOrder
  batch : ∀ held ∈ s.held, held.stored ++ held.todo.flatMap ExportStep.records = held.call.batch
  finished_unmixed : ∀ line ∈ finished isNewline s.file, Unmixed line
  rest_unmixed : Unmixed (unfinished isNewline s.file)

variable {s : ExportState} {event : ExportEvent}

theorem lines_step (hok : BehindLineEnd s event) :
    (s.step event).lines = s.lines ++ (finished isNewline (s.reaching event)).map
      fun line => (line.map Prod.fst).dropLast := by
  rw [ExportState.lines, (step_finished hok).1, List.map_append]
  rfl

theorem lines_step_whole (hok : BehindLineEnd s event) (hall : s.reaching event = s.nextWrite) :
    (s.step event).lines = s.lines ++ s.nextBatch.map SerializedRecord.bytes := by
  have hline := isLine_taggedLines (nextBatch_valid s) s.recordsWritten
  rw [lines_step hok, hall, ExportState.nextWrite, (cut_lines hline).1, content_taggedLines]

theorem unmixed_step (hok : BehindLineEnd s event)
    (hfinished : ∀ line ∈ finished isNewline s.file, Unmixed line)
    (hrest : Unmixed (unfinished isNewline s.file)) :
    (∀ line ∈ finished isNewline (s.step event).file, Unmixed line) ∧
      Unmixed (unfinished isNewline (s.step event).file) := by
  obtain ⟨hfile, hfileRest⟩ := step_finished hok
  obtain ⟨hnew, hnewRest⟩ := unmixed_reaching s event
  refine ⟨?_, ?_⟩
  · rw [hfile]
    intro line hmem
    rcases List.mem_append.1 hmem with hmem | hmem
    · exact hfinished line hmem
    · exact hnew line hmem
  · rcases hfileRest with hfileRest | hfileRest
    · rw [hfileRest]
      exact hrest
    · rw [hfileRest]
      exact hnewRest

theorem ExportKept.of_held (h : ExportKept s) {held : HeldCall} (hheld : s.held = some held) :
    ((s.acknowledged.flatMap Prod.snd ++ held.stored).map SerializedRecord.bytes).Sublist s.lines ∧
      (s.acknowledged.map Prod.fst ++ [held.id]).Sublist s.lockOrder ∧
      held.stored ++ held.todo.flatMap ExportStep.records = held.call.batch := by
  have hstored := h.stored
  have horder := h.order
  rw [ExportState.storedNow, hheld] at hstored
  rw [hheld] at horder
  exact ⟨hstored, horder, h.batch held hheld⟩

theorem ExportKept.acknowledgedWhole (h : ExportKept s) :
    AcknowledgedWhole s := by
  refine ⟨?_, ?_, h.finished_unmixed, h.rest_unmixed⟩
  · refine List.Sublist.trans ?_ h.stored
    rw [List.map_append]
    exact List.sublist_append_left _ _
  · exact (List.sublist_append_left _ _).trans h.order

theorem ExportKept.step (h : ExportKept s) (event : ExportEvent) (hok : BehindLineEnd s event) :
    ExportKept (s.step event) := by
  obtain ⟨hfinished, hrest⟩ := unmixed_step hok h.finished_unmixed h.rest_unmixed
  -- records that are lines now stay lines
  have hgrow : s.lines.Sublist (s.step event).lines := by
    rw [lines_step hok]
    exact List.sublist_append_left _ _
  have hbefore := h.acknowledgedWhole
  cases callMove s event with
  | quiet hheld horder hack =>
    refine ⟨?_, ?_, ?_, hfinished, hrest⟩
    · rw [hack, ExportState.storedNow, hheld]
      exact h.stored.trans hgrow
    · rw [hack, hheld, horder]
      exact h.order
    · rw [hheld]
      exact h.batch
  | locked id call fsync hfree hheld horder hack =>
    refine ⟨?_, ?_, ?_, hfinished, hrest⟩
    · rw [hack, ExportState.storedNow, hheld]
      simpa using hbefore.lines.trans hgrow
    · rw [hack, hheld, horder]
      exact hbefore.order.append_right [id]
    · rw [hheld]
      simp [ExportCall.records_steps]
  | wrote id call todo stored hfrom hall hheld horder hack =>
    obtain ⟨hstored, hids, hbatch⟩ := h.of_held hfrom
    refine ⟨?_, ?_, ?_, hfinished, hrest⟩
    · rw [hack, ExportState.storedNow, hheld, lines_step_whole hok hall]
      simpa using hstored.append_right (s.nextBatch.map SerializedRecord.bytes)
    · rw [hack, hheld, horder]
      exact hids
    · rw [hheld]
      simpa [ExportStep.records] using hbatch
  | synced id call todo stored hfrom hheld horder hack =>
    obtain ⟨hstored, hids, hbatch⟩ := h.of_held hfrom
    refine ⟨?_, ?_, ?_, hfinished, hrest⟩
    · rw [hack, ExportState.storedNow, hheld]
      exact hstored.trans hgrow
    · rw [hack, hheld, horder]
      exact hids
    · rw [hheld]
      simpa [ExportStep.records] using hbatch
  | ended hheld horder hack =>
    refine ⟨?_, ?_, ?_, hfinished, hrest⟩
    · rw [hack, ExportState.storedNow, hheld]
      simpa using hbefore.lines.trans hgrow
    · rw [hack, hheld, horder]
      simpa using hbefore.order
    · rw [hheld]
      simp
  | acknowledged id call stored hfrom hheld horder hack =>
    obtain ⟨hstored, hids, hbatch⟩ := h.of_held hfrom
    simp only [List.flatMap_nil, List.append_nil] at hbatch
    refine ⟨?_, ?_, ?_, hfinished, hrest⟩
    · rw [hack, ExportState.storedNow, hheld]
      simpa [← hbatch] using hstored.trans hgrow
    · rw [hack, hheld, horder]
      simpa using hids
    · rw [hheld]
      simp

theorem exportKept_before (path : String) (content : List UInt8) :
    ExportKept (.before path content) := by
  have hold : ∀ part : List StoredByte, (∀ byte ∈ part, byte ∈ content.map (·, none)) →
      Unmixed part := by
    intro part hpart
    refine ⟨none, fun byte hbyte => ?_⟩
    obtain ⟨b, -, rfl⟩ := List.mem_map.1 (hpart byte hbyte)
    rfl
  have hfile := flatten_finished_append isNewline (content.map (·, none))
  refine ⟨List.nil_sublist _, List.nil_sublist _, by simp [ExportState.before], ?_, ?_⟩
  · intro line hline
    apply hold
    intro byte hbyte
    rw [← hfile]
    exact List.mem_append_left _ (List.mem_flatten_of_mem hline hbyte)
  · apply hold
    intro byte hbyte
    rw [← hfile]
    exact List.mem_append_right _ hbyte

/-- If bytes only go behind a line end, every acknowledged record is a line of its own, in the order
of the lock, and no line mixes two records. -/
theorem acknowledged_records_are_lines (path : String) (content : List UInt8)
    (events : List ExportEvent)
    (h : AllSteps ExportState.step BehindLineEnd (.before path content) events) :
    AcknowledgedWhole (run ExportState.step (.before path content) events) := by
  have hkept : ExportKept (run ExportState.step (.before path content) events) :=
    invariant_of_allSteps (fun _ event hs hok => hs.step event hok)
      (exportKept_before path content) h
  exact hkept.acknowledgedWhole

end Calls

def shortRecord : SerializedRecord := ⟨[97, 98]⟩
def longRecord : SerializedRecord := ⟨[99, 100, 101]⟩

def failedThenWhole : List ExportEvent :=
  [.opened .never true, .call (.records [shortRecord]), .call (.records [longRecord]),
    .lock 0, .write (some 1), .lock 1, .write none, .finish]

def diedThenWhole : List ExportEvent :=
  [.opened .always true, .call (.records [shortRecord]), .lock 0, .crash 2,
    .opened .always true, .call (.records [longRecord]), .lock 1, .write none, .sync true true,
    .finish]

/-- The acknowledged record shares its line with a broken-off write. -/
theorem acknowledged_record_in_mixed_line :
    let failed := run ExportState.step (.before "/audit" []) failedThenWhole
    let died := run ExportState.step (.before "/audit" []) diedThenWhole
    failed.acknowledged = [(1, [longRecord])] ∧ died.acknowledged = [(1, [longRecord])] ∧
    failed.file.map Prod.fst = [97, 99, 100, 101, newline] ∧
    died.file.map Prod.fst = [97, 98, 99, 100, 101, newline] ∧
    failed.lines = [[97, 99, 100, 101]] ∧ died.lines = [[97, 98, 99, 100, 101]] ∧
    failed.file.map Prod.snd = [some 0, some 1, some 1, some 1, some 1] ∧
    died.file.map Prod.snd = [some 0, some 0, some 1, some 1, some 1, some 1] := by
  decide

def overlappingExports : List ExportEvent :=
  [.opened .batch true, .call (.records [shortRecord, longRecord]), .call (.records [longRecord]),
    .lock 1, .write none, .sync true true, .finish, .lock 0, .write none, .sync true true, .finish,
    .call .flush, .lock 2, .sync false true]

theorem acknowledged_records_are_lines_overlappingExports :
    let s := run ExportState.step (.before "/audit" [120, newline]) overlappingExports
    s.acknowledged = [(1, [longRecord]), (0, [shortRecord, longRecord])] ∧
    s.lines = [[120], longRecord.bytes, shortRecord.bytes, longRecord.bytes] ∧
    AcknowledgedWhole s := by
  have hok : AllSteps ExportState.step BehindLineEnd (.before "/audit" [120, newline])
      overlappingExports := by
    unfold overlappingExports
    simp only [AllSteps, BehindLineEnd]
    decide
  exact ⟨by decide, by decide, acknowledged_records_are_lines _ _ _ hok⟩

end PraxisPolicy
