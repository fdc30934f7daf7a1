import PraxisPolicy.ReadOnlyPhases

/-!
# The verdict of the executor

Which plugins can refuse a request; nothing is called behind a refusal.
-/

namespace PraxisPolicy.Executor

section Purpose

variable [Contents] {P : Type}

/-- A credential was declined and the payload at the end names nobody. -/
def CredentialRefused (payload : PluginPayload P) (calls : List (Invocation P)) : Prop :=
  declinedAfter payload calls = true ∧ (payloadAfter payload calls).unrecognized = true

def phasePosition : PluginMode → ℕ
  | .sequential => 0
  | .transform => 1
  | .audit => 2
  | .concurrent => 3
  | .fireAndForget => 4
  | .disabled => 5

/-- They differ only in their audit and fire-and-forget plugins. -/
def SameGates (entries entries' : List (HookEntry P)) : Prop :=
  (entries = [] ↔ entries' = []) ∧
  ∀ mode, mode ≠ .audit → mode ≠ .fireAndForget →
    groupByMode entries mode = groupByMode entries' mode

structure VerdictKept (entries : List (HookEntry P)) (payload : PluginPayload P)
    (run : Execution P) : Prop where
  /-- Who refuses a request. -/
  denied_iff : run.result.continueProcessing = false ↔
    (∃ call ∈ run.invocations, call.phase = .sequential ∧
      (call.objects = true ∨ call.outcome.isLost = true)) ∨
    (∃ call ∈ run.invocations, call.phase = .concurrent ∧ call.objects = true) ∨
    (entries ≠ [] ∧ CredentialRefused payload run.invocations)
  /-- Behind a plugin that refused, no plugin of a later phase is called. -/
  stops : ∀ call ∈ run.invocations, call.refuses = true → ∀ other ∈ run.invocations,
    phasePosition other.phase ≤ phasePosition call.phase
  background : run.result.continueProcessing = false →
    run.background = [] ∧ ∀ call ∈ run.invocations, call.phase ≠ .fireAndForget
  /-- A plugin receives the payload that the calls before it left. -/
  received : ∀ (i : ℕ) (call : Invocation P), run.invocations[i]? = some call →
    call.received = payloadAfter payload (run.invocations.take i)
  /-- So does the caller. -/
  returned : run.result.modifiedPayload.or run.refused =
    some (payloadAfter payload run.invocations)

end Purpose

section Grouping

variable [Contents] {P : Type} {entries : List (HookEntry P)} {mode : PluginMode}

theorem mode_of_mem_groupByMode {entry : HookEntry P} (h : entry ∈ groupByMode entries mode) :
    entry.pluginRef.mode = mode := by
  simpa using (List.mem_filter.mp h).2

variable {call : Invocation P}

theorem phase_of_mem_branchCalls {st : RunState P}
    (h : call ∈ st.branchCalls (groupByMode entries mode)) : call.phase = mode := by
  obtain ⟨entry, hentry, rfl⟩ := List.mem_map.mp h
  exact mode_of_mem_groupByMode hentry

theorem SerialRun.phase_eq {payload : PluginPayload P} {canBlock : Bool} {st : RunState P}
    {done : RunState P × Option PluginViolation} {calls : List (Invocation P)}
    (h : SerialRun payload canBlock (groupByMode entries mode) st done calls)
    (hcall : call ∈ calls) : call.phase = mode :=
  mode_of_mem_groupByMode (h.entries_prefix.subset (List.mem_map_of_mem hcall))

theorem haltsSerial_iff (call : Invocation P) : haltsSerial call.entry call.outcome = true ↔
    call.objects = true ∨ call.outcome.isLost = true := by
  rw [haltsSerial, Bool.or_eq_true]
  rfl

theorem refuses_iff (call : Invocation P) : call.refuses = true ↔
    (call.phase = .sequential ∧ (call.objects = true ∨ call.outcome.isLost = true)) ∨
    (call.phase = .concurrent ∧ call.objects = true) := by
  unfold Invocation.refuses
  cases call.phase <;> simp

theorem exists_refuses_iff (calls : List (Invocation P)) :
    (∃ call ∈ calls, call.refuses = true) ↔
    (∃ call ∈ calls, call.phase = .sequential ∧
      (call.objects = true ∨ call.outcome.isLost = true)) ∨
    ∃ call ∈ calls, call.phase = .concurrent ∧ call.objects = true := by
  simp only [refuses_iff, and_or_left, exists_or]

end Grouping

section Ends

variable [Contents] {P : Type} {entries : List (HookEntry P)} {payload : PluginPayload P}
  {st : RunState P}

theorem VerdictKept.denied {violation : PluginViolation} (htraced : Traced payload st)
    (hcause : (∃ call ∈ st.invocations, call.refuses = true) ∨
      (entries ≠ [] ∧ CredentialRefused payload st.invocations))
    (hstops : ∀ call ∈ st.invocations, call.refuses = true → ∀ other ∈ st.invocations,
      phasePosition other.phase ≤ phasePosition call.phase)
    (hbackground : ∀ call ∈ st.invocations, call.phase ≠ .fireAndForget) :
    VerdictKept entries payload (st.denied violation) where
  denied_iff := by
    rw [exists_refuses_iff, or_assoc] at hcause
    exact ⟨fun _ => hcause, fun _ => rfl⟩
  stops := hstops
  background _ := ⟨rfl, hbackground⟩
  received := htraced.received
  returned := congrArg some htraced.payload_eq

theorem VerdictKept.allowed {background : List String} (htraced : Traced payload st)
    (hpassed : ∀ call ∈ st.invocations, call.refuses = false)
    (hrecognized : entries = [] ∨ ¬ CredentialRefused payload st.invocations) :
    VerdictKept entries payload (st.allowed background) where
  denied_iff := by
    have hnobody : ¬ ∃ call ∈ st.invocations, call.refuses = true := by
      rintro ⟨call, hcall, hrefuses⟩
      rw [hpassed call hcall] at hrefuses
      cases hrefuses
    rw [exists_refuses_iff] at hnobody
    refine ⟨fun hdenied => Bool.noConfusion hdenied, fun hcause => ?_⟩
    rcases or_assoc.mpr hcause with hplugin | ⟨hne, hrefused⟩
    · exact absurd hplugin hnobody
    · rcases hrecognized with hempty | hrecognized
      · exact absurd hempty hne
      · exact absurd hrefused hrecognized
  stops call hcall hrefuses := by
    rw [hpassed call hcall] at hrefuses
    cases hrefuses
  background hdenied := by cases hdenied
  received := htraced.received
  returned := congrArg some htraced.payload_eq

theorem credentialRefused_iff (htraced : Traced payload st) :
    st.credentialRefused = true ↔ CredentialRefused payload st.invocations := by
  rw [RunState.credentialRefused, Bool.and_eq_true, htraced.payload_eq, htraced.declined_eq]
  rfl

end Ends

section Runs

variable [Contents] {P : Type} (config : ExecutorConfig) (sched : ∀ n, Schedule n)
  {entries : List (HookEntry P)} {payload : PluginPayload P} {st : RunState P}

theorem refuses_eq_false_of_phase {call : Invocation P} (hsequential : call.phase ≠ .sequential)
    (hconcurrent : call.phase ≠ .concurrent) : call.refuses = false := by
  unfold Invocation.refuses
  split <;> first | rfl | contradiction

structure Audited (payload : PluginPayload P) (st : RunState P) : Prop where
  traced : Traced payload st
  passed : ∀ call ∈ st.invocations, call.refuses = false
  early : ∀ call ∈ st.invocations, phasePosition call.phase ≤ 2

theorem audited_of_passed (entries : List (HookEntry P)) (htraced : Traced payload st)
    (hphase : ∀ call ∈ st.invocations, call.phase = .sequential)
    (hpassed : ∀ call ∈ st.invocations, call.refuses = false) :
    Audited payload (runRefPhase config (groupByMode entries .audit)
      (runSerialPhase config false true (groupByMode entries .transform) st).1) := by
  obtain ⟨calls, hserial⟩ := runSerialPhase_run config false (groupByMode entries .transform) st
    (fun entry hentry => .inr (mode_of_mem_groupByMode hentry)) htraced
  generalize runSerialPhase config false true (groupByMode entries .transform) st = transformed
    at hserial
  obtain ⟨hrequest, hinvocations⟩ :=
    runRefPhase_spec config (groupByMode entries .audit) transformed.1
  -- A call of these phases is sequential and passed, a transform or an audit.
  have hcases : ∀ call ∈ (runRefPhase config (groupByMode entries .audit)
      transformed.1).invocations,
      call ∈ st.invocations ∨ call.phase = .transform ∨ call.phase = .audit := by
    intro call hcall
    rw [hinvocations, hserial.invocations_eq] at hcall
    rcases List.mem_append.mp hcall with hcall | hcall
    · rcases List.mem_append.mp hcall with hcall | hcall
      · exact .inl hcall
      · exact .inr (.inl (hserial.phase_eq hcall))
    · exact .inr (.inr (phase_of_mem_branchCalls hcall))
  refine ⟨hserial.traced.branchCalls (fun entry hentry => ?_) hrequest hinvocations, ?_, ?_⟩
  · rw [mode_of_mem_groupByMode hentry]
    decide
  · intro call hcall
    rcases hcases call hcall with hcall | hcall | hcall
    · exact hpassed call hcall
    · exact refuses_eq_false_of_phase (by simp [hcall]) (by simp [hcall])
    · exact refuses_eq_false_of_phase (by simp [hcall]) (by simp [hcall])
  · intro call hcall
    rcases hcases call hcall with hcall | hcall | hcall
    · rw [hphase call hcall]
      decide
    · rw [hcall]
      decide
    · rw [hcall]
      decide

structure Gated (payload : PluginPayload P) (done : RunState P × Option PluginViolation) :
    Prop where
  traced : Traced payload done.1
  refused : done.2.isSome = true → ∃ call ∈ done.1.invocations, call.refuses = true
  passed : done.2 = none → ∀ call ∈ done.1.invocations, call.refuses = false
  concurrent : ∀ call ∈ done.1.invocations, call.refuses = true → call.phase = .concurrent
  late : ∀ call ∈ done.1.invocations, phasePosition call.phase ≤ 3

theorem gated_of_audited (entries : List (HookEntry P)) (haudited : Audited payload st) :
    Gated payload (runConcurrentPhase config sched (groupByMode entries .concurrent) st) := by
  obtain ⟨hrequest, hinvocations, hviolation⟩ :=
    runConcurrentPhase_spec config sched (groupByMode entries .concurrent) st
  have hobjects : (runConcurrentPhase config sched (groupByMode entries .concurrent)
      st).2.isSome = true ↔
      ∃ call ∈ st.branchCalls (groupByMode entries .concurrent), call.objects = true := by
    rw [hviolation, List.findSome?_isSome_iff, exists_branchViolation_iff]
  generalize runConcurrentPhase config sched (groupByMode entries .concurrent) st = done
    at hrequest hinvocations hobjects
  -- A call so far is an early one, or one of this phase.
  have hcases : ∀ call ∈ done.1.invocations, call ∈ st.invocations ∨
      (call ∈ st.branchCalls (groupByMode entries .concurrent) ∧ call.phase = .concurrent) := by
    intro call hcall
    rw [hinvocations] at hcall
    rcases List.mem_append.mp hcall with hcall | hcall
    · exact .inl hcall
    · exact .inr ⟨hcall, phase_of_mem_branchCalls hcall⟩
  refine ⟨haudited.traced.branchCalls (fun entry hentry => ?_) hrequest hinvocations, ?_, ?_, ?_, ?_⟩
  · rw [mode_of_mem_groupByMode hentry]
    decide
  · intro hsome
    obtain ⟨call, hcall, hobject⟩ := hobjects.mp hsome
    refine ⟨call, ?_, (refuses_iff call).mpr (.inr ⟨phase_of_mem_branchCalls hcall, hobject⟩)⟩
    rw [hinvocations]
    exact List.mem_append_right _ hcall
  · intro hnone call hcall
    rcases hcases call hcall with hearly | ⟨hcall, hphase⟩
    · exact haudited.passed call hearly
    · by_contra hrefuses
      have hobject : call.objects = true := by
        simpa [Invocation.refuses, hphase] using hrefuses
      have hsome := hobjects.mpr ⟨call, hcall, hobject⟩
      rw [hnone] at hsome
      cases hsome
  · intro call hcall hrefuses
    rcases hcases call hcall with hearly | ⟨-, hphase⟩
    · rw [haudited.passed call hearly] at hrefuses
      cases hrefuses
    · exact hphase
  · intro call hcall
    rcases hcases call hcall with hearly | ⟨-, hphase⟩
    · exact (haudited.early call hearly).trans (by decide)
    · rw [hphase]
      decide

theorem Gated.background {done : RunState P × Option PluginViolation} (h : Gated payload done) :
    ∀ call ∈ done.1.invocations, call.phase ≠ .fireAndForget := by
  intro call hcall hphase
  have hle := h.late call hcall
  rw [hphase] at hle
  exact absurd hle (by decide)

theorem executeRest_kept (hne : entries ≠ []) (htraced : Traced payload st)
    (hphase : ∀ call ∈ st.invocations, call.phase = .sequential)
    (hpassed : ∀ call ∈ st.invocations, call.refuses = false) :
    VerdictKept entries payload (executeRest config sched entries st) := by
  have hgated := gated_of_audited config sched entries
    (audited_of_passed config entries htraced hphase hpassed)
  rw [executeRest]
  simp only
  rcases hdone : runConcurrentPhase config sched (groupByMode entries .concurrent)
    (runRefPhase config (groupByMode entries .audit)
      (runSerialPhase config false true (groupByMode entries .transform) st).1) with
    ⟨gated, _ | violation⟩
  · rw [hdone] at hgated
    have hpassed := hgated.passed rfl
    have hrefused := credentialRefused_iff hgated.traced
    simp only
    split_ifs with hcredential
    · refine VerdictKept.denied hgated.traced (.inr ⟨hne, hrefused.mp hcredential⟩) ?_
        hgated.background
      intro call hcall hrefuses
      rw [hpassed call hcall] at hrefuses
      cases hrefuses
    · have hspawned : Traced payload
          (gated.spawnFireAndForget (groupByMode entries .fireAndForget)) := by
        refine hgated.traced.branchCalls (fun entry hentry => ?_) rfl rfl
        rw [mode_of_mem_groupByMode hentry]
        decide
      refine VerdictKept.allowed hspawned (fun call hcall => ?_) (.inr fun hcause => ?_)
      · rcases List.mem_append.mp hcall with hcall | hcall
        · exact hpassed call hcall
        · have hphase := phase_of_mem_branchCalls hcall
          exact refuses_eq_false_of_phase (by simp [hphase]) (by simp [hphase])
      · exact hcredential ((credentialRefused_iff hspawned).mpr hcause)
  · rw [hdone] at hgated
    refine VerdictKept.denied hgated.traced (.inl (hgated.refused rfl)) ?_ hgated.background
    intro call hcall hrefuses other hother
    rw [hgated.concurrent call hcall hrefuses]
    exact hgated.late other hother

theorem execute_kept (entries : List (HookEntry P)) (payload : PluginPayload P)
    (extensions : Extensions) (contexts : Option PluginContextTable) (decisions : DecisionLog) :
    VerdictKept entries payload
      (execute config sched entries payload extensions contexts decisions) := by
  have hstart : Traced payload (.entry payload extensions contexts decisions) :=
    ⟨rfl, (Bool.or_false _).symm, by simp [RunState.entry]⟩
  rw [execute]
  split_ifs with hempty
  · refine VerdictKept.allowed hstart (fun call hcall => ?_) (.inl (List.isEmpty_iff.mp hempty))
    cases hcall
  · have hne : entries ≠ [] := fun hnil => hempty (List.isEmpty_iff.mpr hnil)
    obtain ⟨calls, hserial⟩ := runSerialPhase_run config true (groupByMode entries .sequential) _
      (fun entry hentry => .inl (mode_of_mem_groupByMode hentry)) hstart
    generalize runSerialPhase config true true (groupByMode entries .sequential)
      (.entry payload extensions contexts decisions) = done at hserial ⊢
    have hcalls : done.1.invocations = calls := hserial.invocations_eq
    have hphase : ∀ call ∈ done.1.invocations, call.phase = .sequential := fun call hcall =>
      hserial.phase_eq (hcalls ▸ hcall)
    have hrefused : done.2.isSome = true ↔ ∃ call ∈ done.1.invocations, call.refuses = true := by
      rw [hserial.refused_iff, hcalls]
      constructor
      · rintro ⟨-, call, hcall, hhalts⟩
        exact ⟨call, hcall, (refuses_iff call).mpr
          (.inl ⟨hserial.phase_eq hcall, (haltsSerial_iff call).mp hhalts⟩)⟩
      · rintro ⟨call, hcall, hrefuses⟩
        rcases (refuses_iff call).mp hrefuses with ⟨-, hhalts⟩ | ⟨hconcurrent, -⟩
        · exact ⟨rfl, call, hcall, (haltsSerial_iff call).mpr hhalts⟩
        · rw [hserial.phase_eq hcall] at hconcurrent
          cases hconcurrent
    obtain ⟨st, _ | violation⟩ := done
    · refine executeRest_kept config sched hne hserial.traced hphase fun call hcall => ?_
      by_contra hrefuses
      have hsome := hrefused.mpr ⟨call, hcall, by simpa using hrefuses⟩
      cases hsome
    · refine VerdictKept.denied hserial.traced (.inl (hrefused.mp rfl)) ?_ ?_
      · intro call hcall _ other hother
        rw [hphase call hcall, hphase other hother]
      · intro call hcall hbackground
        rw [hphase call hcall] at hbackground
        cases hbackground

def PipelineResult.ruling (result : PipelineResult P) :
    Bool × Option PluginViolation × Option (PluginPayload P) :=
  (result.continueProcessing, result.violation, result.modifiedPayload)

theorem ruling_eq_of_sameGates {entries entries' : List (HookEntry P)}
    (h : SameGates entries entries') (payload : PluginPayload P) (extensions : Extensions)
    (contexts : Option PluginContextTable) (decisions : DecisionLog) :
    (execute config sched entries payload extensions contexts decisions).result.ruling =
      (execute config sched entries' payload extensions contexts decisions).result.ruling := by
  obtain ⟨hempty, hgroups⟩ := h
  have hisEmpty : entries.isEmpty = entries'.isEmpty := by
    rw [Bool.eq_iff_iff, List.isEmpty_iff, List.isEmpty_iff, hempty]
  rw [execute, execute, hisEmpty, hgroups .sequential (by decide) (by decide)]
  split_ifs
  · rfl
  rcases runSerialPhase config true true (groupByMode entries' .sequential)
    (.entry payload extensions contexts decisions) with ⟨st, _ | violation⟩
  · simp only [executeRest]
    rw [hgroups .transform (by decide) (by decide), hgroups .concurrent (by decide) (by decide)]
    generalize (runSerialPhase config false true (groupByMode entries' .transform) st).1 = st
    -- The two audited states agree on the request, so the concurrent plugins are called alike.
    have hrequest : (runRefPhase config (groupByMode entries .audit) st).request =
        (runRefPhase config (groupByMode entries' .audit) st).request :=
      ((runRefPhase_spec config _ st).1).trans (runRefPhase_spec config _ st).1.symm
    obtain ⟨hrequest₁, -, hviolation₁⟩ := runConcurrentPhase_spec config sched
      (groupByMode entries' .concurrent) (runRefPhase config (groupByMode entries .audit) st)
    obtain ⟨hrequest₂, -, hviolation₂⟩ := runConcurrentPhase_spec config sched
      (groupByMode entries' .concurrent) (runRefPhase config (groupByMode entries' .audit) st)
    rw [branchCalls_congr hrequest, ← hviolation₂] at hviolation₁
    rw [hrequest, ← hrequest₂] at hrequest₁
    generalize runConcurrentPhase config sched (groupByMode entries' .concurrent)
      (runRefPhase config (groupByMode entries .audit) st) = done₁ at hrequest₁ hviolation₁
    generalize runConcurrentPhase config sched (groupByMode entries' .concurrent)
      (runRefPhase config (groupByMode entries' .audit) st) = done₂ at hrequest₁ hviolation₁
    obtain ⟨st₁, violation₁⟩ := done₁
    obtain ⟨st₂, violation₂⟩ := done₂
    simp only at hrequest₁ hviolation₁
    subst hviolation₁
    have hpayload : st₁.payload = st₂.payload := congrArg Request.payload hrequest₁
    have hdeclined : st₁.credentialDeclined = st₂.credentialDeclined :=
      congrArg Request.credentialDeclined hrequest₁
    cases violation₁ with
    | some violation => rfl
    | none =>
      have hrefused : st₁.credentialRefused = st₂.credentialRefused := by
        rw [RunState.credentialRefused, RunState.credentialRefused, hpayload, hdeclined]
      dsimp only
      by_cases hcredential : st₂.credentialRefused = true
      · rw [if_pos (hrefused.trans hcredential), if_pos hcredential]
        rfl
      · rw [if_neg (hrefused ▸ hcredential), if_neg hcredential]
        simp only [RunState.allowed, RunState.spawnFireAndForget, PipelineResult.ruling, hpayload]
  · rfl

end Runs

section Cases

local instance executorContents : Contents := Contents.plain

def plugin (name : String) (id : ℕ) (mode : PluginMode)
    (handler : PluginPayload Unit → ContainedOutcome Unit) : HookEntry Unit :=
  ⟨⟨id, name, mode, .fail, ∅, false⟩, fun payload _ _ _ => handler payload⟩

def continues (modified : Option (PluginPayload Unit)) : ContainedOutcome Unit :=
  .success (some ⟨true, modified, none, none⟩) ⟨∅, ∅⟩

def nobody (declined : Bool) : PluginPayload Unit := .identity ⟨none, none, none, declined⟩ ()

def executed (entries : List (HookEntry Unit)) (payload : PluginPayload Unit) : Execution Unit :=
  execute ⟨30, true, false⟩ joinInOrder entries payload .default none .new

def faultyPlugins : List (HookEntry Unit) :=
  [plugin "gate" 3 .concurrent fun _ => .panic "gate", plugin "jwt" 0 .sequential fun _ =>
    continues (some (.other ())), plugin "redact" 1 .transform fun _ => .panic "redact",
    plugin "shape" 2 .transform fun _ => continues none]

end Cases

end PraxisPolicy.Executor
