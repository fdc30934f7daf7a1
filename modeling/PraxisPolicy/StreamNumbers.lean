import PraxisPolicy.AuditStreams

/-!
# Streams without holes

Every number of a stream is with the one call that has it, or on a record that each sink was handed
or will be handed by a call that is still there.
-/

namespace PraxisPolicy

open StepRuns

section Moves

variable {executor : AuditExecutor} {s : AuditState}

def Unnumbered : Option EmitStage → Prop
  | none => True
  | some (.appending _) => True
  | some (.stamping _) => True
  | some (.numbered _ _) => False
  | some (.handing _ _) => False
  | some (.awaiting _ _) => False

/-- What a step does, when numbers are taken in turn. -/
inductive EmitMove (executor : AuditExecutor) (s : AuditState) : AuditState → Prop where
  | stay : EmitMove executor s s
  | before (id : ℕ) (stage : Option EmitStage) (hold : Unnumbered (s.calls id))
      (hnew : Unnumbered stage) : EmitMove executor s (s.setCall id stage)
  | number (id : ℕ) (content : AuditContent) (hcall : s.calls id = some (.stamping content))
      (hroom : s.streamSeq content.kind + 1 < 2 ^ 64)
      (halone : ∀ other stage, s.calls other = some stage → ¬ stage.numberedIn content.kind) :
      EmitMove executor s
        { s.setCall id (some (.numbered content (s.streamSeq content.kind))) with
          streamSeq := Function.update s.streamSeq content.kind
            (s.streamSeq content.kind + 1) }
  | stamp (id : ℕ) (content : AuditContent) (seq : ℕ)
      (hcall : s.calls id = some (.numbered content seq)) :
      EmitMove executor s
        { s.setCall id (some (.handing (executor.stampedRecord s content seq) 0)) with
          emissionSeq := s.emissionSeq + 1
          stamped := s.stamped ++ [executor.stampedRecord s content seq] }
  | hand (id : ℕ) (record : StampedRecord) (sink : ℕ)
      (hcall : s.calls id = some (.handing record sink)) :
      EmitMove executor s
        { s.setCall id (some (.awaiting record sink)) with
          handed := Function.update s.handed sink (s.handed sink ++ [record]) }
  | next (id : ℕ) (record : StampedRecord) (sink : ℕ)
      (hcall : s.calls id = some (.awaiting record sink)) :
      EmitMove executor s (s.setCall id (some (.handing record (sink + 1))))
  | leave (id : ℕ) (record : StampedRecord) (sink : ℕ)
      (hcall : s.calls id = some (.awaiting record sink))
      (hlast : executor.sinks.length ≤ sink + 1) : EmitMove executor s (s.setCall id none)

theorem unnumbered_toSinks (content : AuditContent) : Unnumbered (executor.toSinks content) := by
  unfold AuditExecutor.toSinks
  split_ifs <;> trivial

theorem unnumbered_firstStage (call : EmitCall) : Unnumbered (executor.firstStage call) := by
  cases call with
  | decision log verdict digest => exact unnumbered_toSinks _
  | effect plugin effect state =>
    unfold AuditExecutor.firstStage
    simp only
    split_ifs
    · trivial
    · exact unnumbered_toSinks _
  | reconciled record => exact unnumbered_toSinks _

theorem fetchAdd_of_lt {counter : ℕ} (h : counter + 1 < 2 ^ 64) : fetchAdd counter = counter + 1 :=
  Nat.mod_eq_of_lt h

theorem emitMove {event : EmitEvent} (h : StampsInTurn executor s event) :
    EmitMove executor s (executor.step s event) := by
  cases event with
  | begin id call =>
    cases hcall : s.calls id with
    | none => simpa [AuditExecutor.step, hcall] using
        EmitMove.before id _ (by rw [hcall]; trivial) (unnumbered_firstStage call)
    | some stage => simpa [AuditExecutor.step, hcall] using EmitMove.stay
  | appended id accepted =>
    simp only [AuditExecutor.step]
    split
    · rename_i record hcall
      refine EmitMove.before id _ (by rw [hcall]; trivial) ?_
      split_ifs
      · exact unnumbered_toSinks _
      · trivial
    · exact EmitMove.stay
  | number id =>
    simp only [AuditExecutor.step]
    split
    · rename_i content hcall
      obtain ⟨hroom, halone⟩ := h content hcall
      rw [fetchAdd_of_lt hroom]
      exact EmitMove.number id content hcall hroom halone
    · exact EmitMove.stay
  | stamp id =>
    simp only [AuditExecutor.step]
    split
    · rename_i content seq hcall
      rw [fetchAdd_of_lt (h content seq hcall)]
      exact EmitMove.stamp id content seq hcall
    · exact EmitMove.stay
  | hand id =>
    simp only [AuditExecutor.step]
    split
    · exact EmitMove.hand id _ _ ‹_›
    · exact EmitMove.stay
  | answer id answer =>
    simp only [AuditExecutor.step]
    split
    · rename_i record sink hcall
      split_ifs with hmore
      · exact EmitMove.next id record sink hcall
      · exact EmitMove.leave id record sink hcall (not_lt.mp hmore)
    · exact EmitMove.stay
  | drop id =>
    simp only [AuditExecutor.step]
    split
    · rename_i record hcall
      exact EmitMove.before id none (by rw [hcall]; trivial) trivial
    · rename_i record sink hcall
      exact EmitMove.leave id record sink hcall (h record sink hcall).ge
    · exact EmitMove.stay

@[simp, grind =] theorem AuditState.setCall_calls (id other : ℕ) (stage : Option EmitStage) :
    (s.setCall id stage).calls other = if other = id then stage else s.calls other := by
  simp [AuditState.setCall, Function.update_apply]

@[simp, grind =] theorem AuditState.setCall_streamSeq (id : ℕ) (stage : Option EmitStage) :
    (s.setCall id stage).streamSeq = s.streamSeq := rfl

@[simp, grind =] theorem AuditState.setCall_handed (id : ℕ) (stage : Option EmitStage) :
    (s.setCall id stage).handed = s.handed := rfl

@[simp, grind =] theorem AuditState.setCall_stamped (id : ℕ) (stage : Option EmitStage) :
    (s.setCall id stage).stamped = s.stamped := rfl

end Moves

section Numbers

variable {executor : AuditExecutor} {s s' : AuditState}

attribute [local grind =] Function.update_apply EmitStage.numberedIn AuditExecutor.stampedRecord

/-- The shared number is smaller, and so is that of the stream, if it is one. -/
def StampedRecord.Before (a b : StampedRecord) : Prop :=
  a.emissionSeq < b.emissionSeq ∧ (a.content.kind = b.content.kind → a.streamSeq < b.streamSeq)

/-- Numbers go up with the stamped records, and a call between its two numbers has the last one of
its stream. -/
structure NumbersKept (executor : AuditExecutor) (s : AuditState) : Prop where
  named : ∀ record ∈ s.stamped,
    record.streamId = composeStreamId executor.streamNamespace record.content.kind.label
  bounded : ∀ record ∈ s.stamped, record.streamSeq < s.streamSeq record.content.kind
  emitted : ∀ record ∈ s.stamped, record.emissionSeq < s.emissionSeq
  increasing : s.stamped.Pairwise StampedRecord.Before
  last : ∀ id content seq, s.calls id = some (.numbered content seq) →
    seq + 1 = s.streamSeq content.kind ∧
    ∀ record ∈ s.stamped, record.content.kind = content.kind → record.streamSeq < seq
  alone : ∀ id₁ id₂ content₁ content₂ seq₁ seq₂, s.calls id₁ = some (.numbered content₁ seq₁) →
    s.calls id₂ = some (.numbered content₂ seq₂) → content₁.kind = content₂.kind → id₁ = id₂
  taken : ∀ kind, ∀ seq < s.streamSeq kind,
    (∃ record ∈ s.stamped, record.content.kind = kind ∧ record.streamSeq = seq) ∨
    ∃ id content, s.calls id = some (.numbered content seq) ∧ content.kind = kind

namespace NumbersKept

theorem of_sameNumbered (h : NumbersKept executor s) (hseq : s'.streamSeq = s.streamSeq)
    (hemission : s'.emissionSeq = s.emissionSeq) (hstamped : s'.stamped = s.stamped)
    (hcalls : ∀ id content seq, s'.calls id = some (.numbered content seq) ↔
      s.calls id = some (.numbered content seq)) : NumbersKept executor s' where
  named := by simpa only [hstamped] using h.named
  bounded := by simpa only [hstamped, hseq] using h.bounded
  emitted := by simpa only [hstamped, hemission] using h.emitted
  increasing := by simpa only [hstamped] using h.increasing
  last := by simpa only [hstamped, hseq, hcalls] using h.last
  alone := by simpa only [hcalls] using h.alone
  taken := by simpa only [hstamped, hseq, hcalls] using h.taken

theorem setCall {id : ℕ} {stage : Option EmitStage} (h : NumbersKept executor s)
    (hold : ∀ content seq, s.calls id ≠ some (.numbered content seq))
    (hnew : ∀ content seq, stage ≠ some (.numbered content seq)) :
    NumbersKept executor (s.setCall id stage) :=
  h.of_sameNumbered rfl rfl rfl (by grind)

end NumbersKept

theorem Unnumbered.ne_numbered {stage : Option EmitStage} (h : Unnumbered stage)
    (content : AuditContent) (seq : ℕ) : stage ≠ some (.numbered content seq) := by
  rintro rfl
  exact h

theorem EmitMove.numbersKept (hmove : EmitMove executor s s') (h : NumbersKept executor s) :
    NumbersKept executor s' := by
  cases hmove with
  | stay => exact h
  | before id stage hold hnew => exact h.setCall hold.ne_numbered hnew.ne_numbered
  | number id content hcall hroom halone =>
    obtain ⟨hnamed, hbounded, hemitted, hincreasing, hlast, hapart, htaken⟩ := h
    -- A numbered call is the one that just took its number, or one of another stream.
    refine ⟨hnamed, by grind, hemitted, hincreasing, by grind, by grind, ?_⟩
    intro kind seq hseq
    by_cases hnew : kind = content.kind ∧ seq = s.streamSeq content.kind
    · exact .inr ⟨id, content, by simp [hnew.2], hnew.1.symm⟩
    · have hlt : seq < s.streamSeq kind := by grind
      rcases htaken kind seq hlt with hstamped | ⟨other, content', hother, hkind⟩
      · exact .inl hstamped
      · exact .inr ⟨other, content', by grind, hkind⟩
  | stamp id content seq hcall =>
    obtain ⟨hlast, hbefore⟩ := h.last id content seq hcall
    obtain ⟨hnamed, hbounded, hemitted, hincreasing, hnumbered, halone, htaken⟩ := h
    refine ⟨by grind, by grind, by grind, ?_, by grind, by grind, ?_⟩
    · refine List.pairwise_append.mpr ⟨hincreasing, List.pairwise_singleton _ _, ?_⟩
      intro record hrecord new hnew
      rw [List.mem_singleton.mp hnew]
      exact ⟨hemitted record hrecord, hbefore record hrecord⟩
    · intro kind seq' hseq'
      rcases htaken kind seq' hseq' with ⟨record, hrecord, hplace⟩ | ⟨other, content', hother, hkind⟩
      · exact .inl ⟨record, List.mem_append_left _ hrecord, hplace⟩
      · by_cases hid : other = id
        · exact .inl ⟨executor.stampedRecord s content seq, by grind⟩
        · exact .inr ⟨other, content', by grind, hkind⟩
  | hand id record sink hcall =>
    have hset : NumbersKept executor (s.setCall id (some (.awaiting record sink))) :=
      h.setCall (by simp [hcall]) (by simp)
    exact hset.of_sameNumbered rfl rfl rfl fun _ _ _ => Iff.rfl
  | next id record sink hcall => exact h.setCall (by simp [hcall]) (by simp)
  | leave id record sink hcall hlast => exact h.setCall (by simp [hcall]) (by simp)

end Numbers

section Handed

variable {executor : AuditExecutor} {s s' : AuditState}

def EmitStage.carried : EmitStage → Option StampedRecord
  | .appending _ => none
  | .stamping _ => none
  | .numbered _ _ => none
  | .handing record _ => some record
  | .awaiting record _ => some record

def EmitStage.Owes (record : StampedRecord) (sink : ℕ) : EmitStage → Prop
  | .handing own next => own = record ∧ next ≤ sink
  | .awaiting own current => own = record ∧ current < sink
  | _ => False

variable {stage : EmitStage}

theorem EmitStage.Owes.carried {record : StampedRecord} {sink : ℕ}
    (h : stage.Owes record sink) : stage.carried = some record := by
  cases stage with
  | appending _ | stamping _ | numbered _ _ => cases h
  | handing own next => rw [EmitStage.carried, h.1]
  | awaiting own current => rw [EmitStage.carried, h.1]

attribute [local grind =] Function.update_apply EmitStage.carried EmitStage.Owes
attribute [local grind →] EmitStage.Owes.carried

structure HandedKept (executor : AuditExecutor) (s : AuditState) : Prop where
  carried_stamped : ∀ id stage record, s.calls id = some stage → stage.carried = some record →
    record ∈ s.stamped
  carried_apart : ∀ id₁ id₂ stage₁ stage₂ record, s.calls id₁ = some stage₁ →
    s.calls id₂ = some stage₂ → stage₁.carried = some record → stage₂.carried = some record →
    id₁ = id₂
  owed : ∀ id stage record sink, s.calls id = some stage → stage.Owes record sink →
    record ∉ s.handed sink
  handed_stamped : ∀ sink, ∀ record ∈ s.handed sink, record ∈ s.stamped
  handed_nodup : ∀ sink, (s.handed sink).Nodup
  reached : ∀ record ∈ s.stamped, ∀ sink < executor.sinks.length,
    record ∈ s.handed sink ∨ ∃ id stage, s.calls id = some stage ∧ stage.Owes record sink

namespace HandedKept

variable {id : ℕ} {stage : Option EmitStage}

/-- What a call carries and owes after the step it did before, and what it owed no longer is with
the sink. -/
theorem setCall (h : HandedKept executor s)
    (hcarried : ∀ new record, stage = some new → new.carried = some record →
      ∃ old, s.calls id = some old ∧ old.carried = some record)
    (howes : ∀ record, ∀ sink < executor.sinks.length,
      (∃ old, s.calls id = some old ∧ old.Owes record sink) →
      ∃ new, stage = some new ∧ new.Owes record sink)
    (howed : ∀ new record sink, stage = some new → new.Owes record sink →
      ∃ old, s.calls id = some old ∧ old.Owes record sink) :
    HandedKept executor (s.setCall id stage) := by
  refine ⟨?_, ?_, ?_, h.handed_stamped, h.handed_nodup, ?_⟩
  · have hstamped := h.carried_stamped
    grind
  · have hapart := h.carried_apart
    grind
  · have howed' := h.owed
    grind
  · intro record hrecord sink hsink
    rcases h.reached record hrecord sink hsink with hhanded | ⟨other, old, hother, hold⟩
    · exact .inl hhanded
    · by_cases hid : other = id
      · obtain ⟨new, hstage, hnew⟩ := howes record sink hsink ⟨old, hid ▸ hother, hold⟩
        exact .inr ⟨id, new, by simp [hstage], hnew⟩
      · exact .inr ⟨other, old, by simpa [hid] using hother, hold⟩

theorem setCall_of_empty (h : HandedKept executor s)
    (hold : ∀ old, s.calls id = some old → old.carried = none)
    (hnew : ∀ new, stage = some new → new.carried = none) :
    HandedKept executor (s.setCall id stage) := by
  refine h.setCall (fun new record hstage hrecord => ?_) (fun record sink _ howes => ?_)
    fun new record sink hstage howes => ?_
  · rw [hnew new hstage] at hrecord
    cases hrecord
  · obtain ⟨old, hcall, howes⟩ := howes
    exact absurd howes.carried (by simp [hold old hcall])
  · exact absurd howes.carried (by simp [hnew new hstage])

end HandedKept

theorem Unnumbered.carried (h : Unnumbered (some stage)) :
    stage.carried = none := by
  cases stage with
  | appending _ | stamping _ => rfl
  | numbered _ _ | handing _ _ | awaiting _ _ => cases h

theorem EmitMove.handedKept (hmove : EmitMove executor s s') (hnumbers : NumbersKept executor s)
    (h : HandedKept executor s) : HandedKept executor s' := by
  cases hmove with
  | stay => exact h
  | before id stage hold hnew =>
    exact h.setCall_of_empty (fun old hcall => Unnumbered.carried (hcall ▸ hold))
      fun new hstage => Unnumbered.carried (hstage ▸ hnew)
  | number id content hcall hroom halone =>
    have hset : HandedKept executor
        (s.setCall id (some (.numbered content (s.streamSeq content.kind)))) :=
      h.setCall_of_empty (fun old hold => by cases hcall.symm.trans hold; rfl)
        fun new hnew => by cases hnew; rfl
    exact ⟨hset.carried_stamped, hset.carried_apart, hset.owed, hset.handed_stamped,
      hset.handed_nodup, hset.reached⟩
  | stamp id content seq hcall =>
    have hfresh : executor.stampedRecord s content seq ∉ s.stamped :=
      fun hmem => lt_irrefl _ (hnumbers.emitted _ hmem)
    generalize executor.stampedRecord s content seq = record at hfresh ⊢
    have hstamped := h.carried_stamped
    have hhanded := h.handed_stamped
    refine ⟨by grind, ?_, ?_, ?_, h.handed_nodup, ?_⟩
    · have hapart := h.carried_apart
      grind
    · have howed := h.owed
      grind
    · exact fun sink own hown => List.mem_append_left _ (hhanded sink own hown)
    · intro own hown sink hsink
      rcases List.mem_append.mp hown with hown | hown
      · rcases h.reached own hown sink hsink with hhanded | ⟨other, stage, hother, howes⟩
        · exact .inl hhanded
        · exact .inr ⟨other, stage, by grind, howes⟩
      · exact .inr ⟨id, .handing record 0, by simp, (List.mem_singleton.mp hown).symm, sink.zero_le⟩
  | hand id record sink hcall =>
    have hfresh : record ∉ s.handed sink :=
      h.owed id _ record sink hcall ⟨rfl, le_refl sink⟩
    have hstamped : record ∈ s.stamped := h.carried_stamped id _ record hcall rfl
    refine ⟨?_, ?_, ?_, ?_, ?_, ?_⟩
    · have hcarried := h.carried_stamped
      grind
    · have hapart := h.carried_apart
      grind
    · intro other new own target hother howes hhanded
      have hnew : other = id ∧ new = .awaiting record sink ∨ other ≠ id ∧ s.calls other = some new := by
        grind
      have hmem : own ∈ s.handed target ∨ target = sink ∧ own = record := by grind
      rcases hnew with ⟨-, rfl⟩ | ⟨hid, hold⟩ <;> rcases hmem with hmem | ⟨rfl, rfl⟩
      · exact h.owed id _ own target hcall ⟨howes.1, howes.2.le⟩ hmem
      · exact lt_irrefl _ howes.2
      · exact h.owed other new own target hold howes hmem
      · exact hid (h.carried_apart other id new _ own hold hcall howes.carried rfl)
    · have hhanded := h.handed_stamped
      grind
    · have hnodup := h.handed_nodup
      grind
    · intro own hown target htarget
      rcases h.reached own hown target htarget with hhanded | ⟨other, stage, hother, howes⟩
      · exact .inl (by grind)
      · by_cases hid : other = id
        · rw [hid, hcall, Option.some.injEq] at hother
          rw [← hother] at howes
          rcases eq_or_lt_of_le howes.2 with heq | hlt
          · exact .inl (by grind [howes.1])
          · exact .inr ⟨id, .awaiting record sink, by simp, howes.1, hlt⟩
        · exact .inr ⟨other, stage, by simpa [hid] using hother, howes⟩
  | next id record sink hcall =>
    refine h.setCall (fun new own hnew hown => ?_) (fun own target _ howes => ?_)
      fun new own target hnew howes => ?_
    · cases hnew
      exact ⟨_, hcall, hown⟩
    · obtain ⟨old, hold, howes⟩ := howes
      cases hcall.symm.trans hold
      exact ⟨_, rfl, howes.1, howes.2⟩
    · cases hnew
      exact ⟨_, hcall, howes.1, howes.2⟩
  | leave id record sink hcall hlast =>
    refine h.setCall (fun new own hnew _ => by cases hnew) (fun own target htarget howes => ?_)
      fun new own target hnew _ => by cases hnew
    obtain ⟨old, hold, howes⟩ := howes
    cases hcall.symm.trans hold
    have hlt : sink < target := howes.2
    omega

end Handed

section Whole

variable {executor : AuditExecutor} {s : AuditState} {a b : StampedRecord}

theorem StreamKind.label_injective : Function.Injective StreamKind.label := by
  intro a b h
  cases a <;> cases b <;> first | rfl | exact absurd h (by decide)

theorem composeStreamId_injective (ns : Option String) :
    Function.Injective (composeStreamId ns) := by
  intro a b h
  cases ns with
  | none => exact h
  | some ns => exact (String.append_right_inj (ns ++ ":")).mp h

theorem NumbersKept.kind_eq (h : NumbersKept executor s)
    (ha : a ∈ s.stamped) (hb : b ∈ s.stamped) (hid : a.streamId = b.streamId) :
    a.content.kind = b.content.kind := by
  rw [h.named a ha, h.named b hb] at hid
  exact StreamKind.label_injective (composeStreamId_injective _ hid)

theorem NumbersKept.compare (h : NumbersKept executor s)
    (ha : a ∈ s.stamped) (hb : b ∈ s.stamped) : a = b ∨ a.Before b ∨ b.Before a := by
  obtain ⟨i, hi, rfl⟩ := List.mem_iff_getElem.mp ha
  obtain ⟨j, hj, rfl⟩ := List.mem_iff_getElem.mp hb
  have hpairs := List.pairwise_iff_getElem.mp h.increasing
  rcases lt_trichotomy i j with hlt | heq | hgt
  · exact .inr (.inl (hpairs i j hi hj hlt))
  · subst heq
    exact .inl rfl
  · exact .inr (.inr (hpairs j i hj hi hgt))

theorem streamsWhole_of_kept (hnumbers : NumbersKept executor s) (hhanded : HandedKept executor s)
    (hquiet : ∀ id, s.calls id = none) : StreamsWhole executor s where
  dense := by
    intro sink hsink record hrecord seq hseq
    have hstamped := hhanded.handed_stamped sink record hrecord
    have hlt : seq < s.streamSeq record.content.kind :=
      hseq.trans (hnumbers.bounded record hstamped)
    rcases hnumbers.taken _ seq hlt with ⟨earlier, hearlier, hkind, hplace⟩ | ⟨id, content, hcall, -⟩
    · rcases hhanded.reached earlier hearlier sink hsink with hmem | ⟨id, stage, hcall, -⟩
      · refine ⟨earlier, hmem, ?_, hplace⟩
        rw [hnumbers.named earlier hearlier, hnumbers.named record hstamped, hkind]
      · rw [hquiet id] at hcall
        cases hcall
    · rw [hquiet id] at hcall
      cases hcall
  distinct := hnumbers.increasing.imp_of_mem fun {a b} ha hb hbefore hid hseq =>
    (hbefore.2 (hnumbers.kind_eq ha hb hid)).ne hseq
  handed_once sink := (hhanded.handed_nodup sink).imp_of_mem fun {a b} ha hb hne hid hseq => by
    have ha := hhanded.handed_stamped sink a ha
    have hb := hhanded.handed_stamped sink b hb
    have hkind := hnumbers.kind_eq ha hb hid
    rcases hnumbers.compare ha hb with heq | hbefore | hbefore
    · exact hne heq
    · exact (hbefore.2 hkind).ne hseq
    · exact (hbefore.2 hkind.symm).ne hseq.symm
  handed_stamped := hhanded.handed_stamped
  ordered := by
    intro a ha b hb hid hseq
    rcases hnumbers.compare ha hb with rfl | hbefore | hbefore
    · exact absurd hseq (lt_irrefl _)
    · exact hbefore.1
    · exact absurd hseq (hbefore.2 (hnumbers.kind_eq ha hb hid).symm).not_gt

/-- If numbers are taken in turn and no call is dropped before its record is with the last sink, the
streams end with no holes and one order. -/
theorem streams_whole (executor : AuditExecutor) (events : List EmitEvent)
    (hsteps : AllSteps executor.step (StampsInTurn executor) .start events)
    (hquiet : ∀ id, (run executor.step .start events).calls id = none) :
    StreamsWhole executor (run executor.step .start events) := by
  have hstart : NumbersKept executor .start ∧ HandedKept executor .start :=
    ⟨by constructor <;> simp [AuditState.start], by constructor <;> simp [AuditState.start]⟩
  have hkept : NumbersKept executor (run executor.step .start events) ∧
      HandedKept executor (run executor.step .start events) :=
    invariant_of_allSteps (I := fun s => NumbersKept executor s ∧ HandedKept executor s)
      (fun s event h hok => ⟨(emitMove hok).numbersKept h.1, (emitMove hok).handedKept h.1 h.2⟩)
      hstart hsteps
  exact streamsWhole_of_kept hkept.1 hkept.2 hquiet

end Whole

def auditedBy (sinks : List String) : AuditExecutor := ⟨sinks, false, 7, none, false⟩

def decided (id : ℕ) : EmitEvent := .begin id (.decision .new .allow none)

def droppedAtFirstSink : List EmitEvent :=
  [decided 0, .number 0, .stamp 0, .hand 0, .drop 0,
    decided 1, .number 1, .stamp 1, .hand 1, .answer 1 .done, .hand 1, .answer 1 .done]

def crossedNumbers : List EmitEvent :=
  [decided 0, decided 1, .number 0, .number 1, .stamp 1, .stamp 0,
    .hand 0, .answer 0 .done, .hand 1, .answer 1 .done]

theorem streams_broken :
    (∀ id, (run (auditedBy ["log", "ocsf"]).step .start droppedAtFirstSink).calls id = none) ∧
    ¬ StreamsWhole (auditedBy ["log", "ocsf"])
      (run (auditedBy ["log", "ocsf"]).step .start droppedAtFirstSink) ∧
    (∀ id, (run (auditedBy ["log"]).step .start crossedNumbers).calls id = none) ∧
    ¬ StreamsWhole (auditedBy ["log"]) (run (auditedBy ["log"]).step .start crossedNumbers) := by
  refine ⟨?_, fun h => ?_, ?_, fun h => ?_⟩
  · rintro (_ | _ | other) <;> rfl
  · obtain ⟨earlier, hmem, -, hseq⟩ := h.dense 1 (by decide) _ (List.mem_cons_self) 0 (by decide)
    have hzero := List.mem_map_of_mem (f := StampedRecord.streamSeq) hmem
    rw [hseq] at hzero
    exact absurd hzero (by decide)
  · rintro (_ | _ | other) <;> rfl
  · have horder := h.ordered _ (List.mem_cons_of_mem _ List.mem_cons_self) _ List.mem_cons_self rfl
      (by decide)
    exact absurd horder (by decide)

def emittedInTurn : List EmitEvent :=
  [.begin 0 (.effect "minter" (.prepared "token.mint" "mint" "mint-1") .prepared), decided 1,
    .number 0, .stamp 0, .number 1, .stamp 1, .hand 1, .hand 0, .answer 1 .timedOut,
    .answer 0 .done, .hand 0, .hand 1, .drop 1, .answer 0 .done]

theorem streams_whole_emittedInTurn :
    StreamsWhole (auditedBy ["log", "ocsf"])
      (run (auditedBy ["log", "ocsf"]).step .start emittedInTurn) := by
  refine streams_whole _ _ ⟨trivial, trivial, ?_, ?_, ?_, ?_, trivial, trivial, trivial, trivial,
    trivial, trivial, ?_, trivial, trivial⟩ (by rintro (_ | _ | other) <;> rfl)
  · intro content hcall
    cases hcall
    refine ⟨by decide, ?_⟩
    rintro (_ | _ | other) stage hother <;> cases hother <;> exact not_false
  · intro content seq hcall
    decide
  · intro content hcall
    cases hcall
    refine ⟨by decide, ?_⟩
    rintro (_ | _ | other) stage hother <;> cases hother <;> exact not_false
  · intro content seq hcall
    decide
  · intro record sink hcall
    cases hcall
    rfl

end PraxisPolicy
