import PraxisPolicy.ExecutorTraces

/-!
# The phases that only look

Audit, concurrent and fire-and-forget plugins leave the request as it is.  A concurrent phase
refuses it exactly when one of its plugins objects.
-/

namespace PraxisPolicy.Executor

section Request

variable [Contents] {P : Type} (config : ExecutorConfig) {st st' : RunState P}

/-- What plugins see and callers get back. -/
structure Request (P : Type) where
  payload : PluginPayload P
  extensions : Extensions
  contexts : PluginContextTable
  payloadModified : Bool
  credentialDeclined : Bool

def RunState.request (st : RunState P) : Request P :=
  ⟨st.payload, st.extensions, st.contexts, st.payloadModified, st.credentialDeclined⟩

@[simp] theorem record_request (entry : HookEntry P) (action : PluginAction) :
    (st.record entry action).request = st.request := rfl

@[simp] theorem pushError_request (error : PluginError) :
    (st.pushError error).request = st.request := rfl

@[simp] theorem disableOn_request (entry : HookEntry P) :
    (st.disableOn entry).request = st.request := by
  unfold RunState.disableOn
  split_ifs <;> rfl

theorem branchCalls_congr (h : st.request = st'.request) (entries : List (HookEntry P)) :
    st.branchCalls entries = st'.branchCalls entries := by
  have hpayload : st.payload = st'.payload := congrArg Request.payload h
  have hextensions : st.extensions = st'.extensions := congrArg Request.extensions h
  have hcontexts : st.contexts = st'.contexts := congrArg Request.contexts h
  simp only [RunState.branchCalls, RunState.readOnlyOutcome, hpayload, hextensions, hcontexts]

theorem observe_spec (entry : HookEntry P) (outcome : ContainedOutcome P) :
    (st.observe config entry outcome).request = st.request ∧
      (st.observe config entry outcome).invocations = st.invocations := by
  cases outcome with
  | success result context => exact ⟨rfl, rfl⟩
  | error _ _ | timeout _ | panic _ | lost =>
    simp [RunState.observe, RunState.noteFault]

theorem runRefPhase_spec (entries : List (HookEntry P)) (st : RunState P) :
    (runRefPhase config entries st).request = st.request ∧
    (runRefPhase config entries st).invocations = st.invocations ++ st.branchCalls entries := by
  induction entries generalizing st with
  | nil => exact ⟨rfl, (List.append_nil _).symm⟩
  | cons entry entries ih =>
    have hrequest : (st.refStep config entry).request = st.request :=
      (observe_spec config entry _).1
    have hinvocations : (st.refStep config entry).invocations =
        st.invocations ++ [⟨entry, st.payload, st.readOnlyOutcome entry⟩] :=
      (observe_spec config entry _).2
    obtain ⟨ihrequest, ihinvocations⟩ := ih (st.refStep config entry)
    refine ⟨ihrequest.trans hrequest, ?_⟩
    rw [runRefPhase, List.foldl_cons, ← runRefPhase, ihinvocations, hinvocations,
      branchCalls_congr hrequest, List.append_assoc, List.singleton_append]
    rfl

theorem Traced.branchCalls {payload : PluginPayload P} {entries : List (HookEntry P)}
    (h : Traced payload st) (hmode : ∀ entry ∈ entries,
      entry.pluginRef.mode ≠ .sequential ∧ entry.pluginRef.mode ≠ .transform)
    (hrequest : st'.request = st.request)
    (hinvocations : st'.invocations = st.invocations ++ st.branchCalls entries) :
    Traced payload st' := by
  have hquiet : ∀ call ∈ st.branchCalls entries, call.accepted = none := by
    intro call hcall
    obtain ⟨entry, hentry, rfl⟩ := List.mem_map.mp hcall
    obtain ⟨hsequential, htransform⟩ := hmode entry hentry
    unfold Invocation.accepted Invocation.phase
    split <;> first | rfl | contradiction
  have hpayload : st'.payload = st.payload := congrArg Request.payload hrequest
  have hdeclined : st'.credentialDeclined = st.credentialDeclined :=
    congrArg Request.credentialDeclined hrequest
  refine ⟨?_, ?_, ?_⟩
  · rw [hpayload, hinvocations, payloadAfter_append, payloadAfter_of_quiet hquiet, h.payload_eq]
  · have hnone : ((st.branchCalls entries).any fun call =>
        call.accepted.any PluginPayload.credentialDeclined) = false := by
      rw [List.any_eq_false]
      intro call hcall
      simp [hquiet call hcall]
    rw [hdeclined, hinvocations, declinedAfter_append, hnone, Bool.or_false, h.declined_eq]
  · rw [hinvocations]
    refine received_append h.received fun i call hcall => ?_
    obtain ⟨entry, -, rfl⟩ := List.mem_map.mp (List.mem_of_getElem? hcall)
    rw [payloadAfter_of_quiet fun other hother => hquiet other (List.mem_of_mem_take hother)]
    exact h.payload_eq

end Request

section Concurrent

variable [Contents] {P : Type} (config : ExecutorConfig)

def branchViolation (branch : Invocation P × BranchOutcome BranchData) :
    Option PluginViolation :=
  let name := branch.1.entry.pluginRef.name
  let halting := branch.1.entry.pluginRef.onError = .fail
  match branch.2 with
  | .completed .allow => none
  | .completed (.deny violation) => some (denyViolation "concurrent_deny" name violation)
  | .completed (.error error) => if halting then some (Fault.ofError name error).violation else none
  | .timedOut => if halting then some (Fault.ofTimeout config name).violation else none
  | .panicked message =>
    if halting then some (Fault.ofPanic "panicked: " name message).violation else none
  | .aborted => none

theorem concurrentFault_spec (entry : HookEntry P) (fault : Fault)
    (acc : RunState P × Option PluginViolation) :
    (concurrentFault entry fault acc).1.request = acc.1.request ∧
    (concurrentFault entry fault acc).1.invocations = acc.1.invocations ∧
    (concurrentFault entry fault acc).2 =
      acc.2.or (if entry.pluginRef.onError = .fail then some fault.violation else none) := by
  unfold concurrentFault
  split_ifs <;> simp

theorem concurrentStep_spec (acc : RunState P × Option PluginViolation)
    (branch : Invocation P × BranchOutcome BranchData) :
    (concurrentStep config acc branch).1.request = acc.1.request ∧
    (concurrentStep config acc branch).1.invocations = acc.1.invocations ∧
    (concurrentStep config acc branch).2 = acc.2.or (branchViolation config branch) := by
  obtain ⟨call, outcome⟩ := branch
  cases outcome with
  | completed data =>
    cases data with
    | allow => exact ⟨rfl, rfl, (Option.or_none).symm⟩
    | deny violation => exact ⟨rfl, rfl, rfl⟩
    | error error => exact concurrentFault_spec _ _ acc
  | timedOut => exact concurrentFault_spec _ _ acc
  | panicked message => exact concurrentFault_spec _ _ acc
  | aborted => exact ⟨rfl, rfl, (Option.or_none).symm⟩

theorem foldl_concurrentStep (branches : List (Invocation P × BranchOutcome BranchData))
    (acc : RunState P × Option PluginViolation) :
    (branches.foldl (concurrentStep config) acc).1.request = acc.1.request ∧
    (branches.foldl (concurrentStep config) acc).1.invocations = acc.1.invocations ∧
    (branches.foldl (concurrentStep config) acc).2 =
      acc.2.or (branches.findSome? (branchViolation config)) := by
  induction branches generalizing acc with
  | nil => exact ⟨rfl, rfl, (Option.or_none).symm⟩
  | cons branch branches ih =>
    obtain ⟨hrequest, hinvocations, hviolation⟩ := concurrentStep_spec config acc branch
    obtain ⟨ihrequest, ihinvocations, ihviolation⟩ := ih (concurrentStep config acc branch)
    refine ⟨ihrequest.trans hrequest, ihinvocations.trans hinvocations, ?_⟩
    rw [List.foldl_cons, ihviolation, hviolation, Option.or_assoc, List.findSome?_cons]
    cases branchViolation config branch <;> rfl

def Invocation.ownOutcome (call : Invocation P) : BranchOutcome BranchData :=
  if call.outcome.timedOut then .timedOut
  else match branchRun call.entry.pluginRef.name call.outcome with
    | .ok value => .completed value
    | .error payload => .panicked payload

attribute [local simp] branchViolation Invocation.ownOutcome Invocation.objects branchRun
  ContainedOutcome.timedOut ContainedOutcome.denies ContainedOutcome.fails in
theorem branchViolation_ownOutcome (call : Invocation P) :
    (branchViolation config (call, call.ownOutcome)).isSome = call.objects := by
  obtain ⟨entry, received, outcome⟩ := call
  cases outcome with
  | success result context =>
    cases result with
    | none => by_cases hfail : entry.pluginRef.onError = .fail <;> simp [hfail]
    | some result => cases hcontinue : result.continueProcessing <;> simp [hcontinue]
  | error _ _ | timeout _ | panic _ =>
    by_cases hfail : entry.pluginRef.onError = .fail <;> simp [hfail]
  | lost => simp

variable (sched : ∀ n, Schedule n) (calls : List (Invocation P))

variable {i : ℕ} {call : Invocation P} {calls} {outcome : BranchOutcome BranchData}

theorem endOf_branchRun {config : BranchConfig} (hconfig : config.timeoutPerBranch.isSome)
    {runs : List (Except String BranchData)} {sched : Schedule runs.length}
    (hlate : sched.late i = call.outcome.timedOut) :
    endOf runs config sched i (branchRun call.entry.pluginRef.name call.outcome) =
      call.ownOutcome := by
  simp only [endOf, hconfig, hlate, Bool.true_and, Invocation.ownOutcome]
  cases branchRun call.entry.pluginRef.name call.outcome <;> rfl

theorem length_joinBranches : (joinBranches config sched calls).length = calls.length := by
  simp [joinBranches]

theorem joinBranches_cases (hcall : calls[i]? = some call)
    (houtcome : (joinBranches config sched calls)[i]? = some outcome) :
    outcome = .aborted ∨ outcome = call.ownOutcome := by
  rcases runBranches_getElem?_cases houtcome with haborted | ⟨run, hrun, hend⟩
  · exact .inl haborted
  · rw [List.getElem?_map, hcall, Option.map_some, Option.some.injEq] at hrun
    rw [← hrun, endOf_branchRun rfl (by simp [hcall])] at hend
    exact .inr hend

theorem joinBranches_of_noDeny
    (h : ∀ data, .completed data ∈ joinBranches config sched calls → data.isDeny = false)
    (hcall : calls[i]? = some call) :
    (joinBranches config sched calls)[i]? = some call.ownOutcome := by
  have hrun : (calls.map fun call => branchRun call.entry.pluginRef.name call.outcome)[i]? =
      some (branchRun call.entry.pluginRef.name call.outcome) := by
    rw [List.getElem?_map, hcall, Option.map_some]
  have hend := runBranches_eq_endOf h hrun
  rwa [endOf_branchRun rfl (by simp [hcall])] at hend

theorem objects_of_isLost (h : call.outcome.isLost = true) :
    call.objects = false ∧ call.ownOutcome = .completed .allow := by
  obtain ⟨entry, received, outcome⟩ := call
  cases outcome with
  | lost => exact ⟨rfl, rfl⟩
  | success _ _ | error _ _ | timeout _ | panic _ => cases h

theorem mem_zip_branchOutcomes (hcall : calls[i]? = some call)
    (houtcome : (joinBranches config sched calls)[i]? = some outcome)
    (hkept : call.outcome.isLost = false) :
    (call, outcome) ∈ calls.zip (branchOutcomes config sched calls) := by
  refine List.mem_of_getElem? (List.getElem?_zip_eq_some.mpr ⟨hcall, ?_⟩)
  simp [branchOutcomes, List.getElem?_zipWith, hcall, houtcome, hkept]

/-- Whatever the schedule, the phase refuses exactly when a plugin objects. -/
theorem exists_branchViolation_iff :
    (∃ branch ∈ calls.zip (branchOutcomes config sched calls),
      (branchViolation config branch).isSome = true) ↔
    ∃ call ∈ calls, call.objects = true := by
  constructor
  · rintro ⟨⟨call, outcome⟩, hmem, hsome⟩
    obtain ⟨i, hi⟩ := List.mem_iff_getElem?.mp hmem
    obtain ⟨hcall, houtcome⟩ := List.getElem?_zip_eq_some.mp hi
    obtain ⟨call', joined, hcall', hjoined, hkept⟩ := List.getElem?_zipWith_eq_some.mp houtcome
    obtain rfl : call = call' := Option.some.inj (hcall.symm.trans hcall')
    simp only at hkept
    rw [← hkept] at hsome
    refine ⟨call, List.mem_of_getElem? hcall, ?_⟩
    split_ifs at hsome with hlost
    · cases hsome
    · rcases joinBranches_cases config sched hcall hjoined with rfl | rfl
      · cases hsome
      · rwa [branchViolation_ownOutcome] at hsome
  · rintro ⟨call, hmem, hobjects⟩
    by_contra hnone
    push Not at hnone
    obtain ⟨i, hcall⟩ := List.mem_iff_getElem?.mp hmem
    have hkept : call.outcome.isLost = false := by
      by_contra hlost
      rw [(objects_of_isLost (by simpa using hlost)).1] at hobjects
      cases hobjects
    -- A deny among the outcomes would be a violation of the phase.
    have hnoDeny : ∀ data, .completed data ∈ joinBranches config sched calls →
        data.isDeny = false := by
      intro data hdata
      obtain ⟨j, hj⟩ := List.mem_iff_getElem?.mp hdata
      have hlt : j < calls.length := by
        rw [← length_joinBranches config sched]
        exact (List.getElem?_eq_some_iff.mp hj).1
      cases data with
      | allow | error _ => rfl
      | deny violation =>
        have hother : calls[j]? = some calls[j] := List.getElem?_eq_getElem hlt
        have hkept : calls[j].outcome.isLost = false := by
          by_contra hlost
          rcases joinBranches_cases config sched hother hj with habort | hown
          · cases habort
          · rw [(objects_of_isLost (by simpa using hlost)).2] at hown
            cases hown
        exact absurd rfl (hnone _ (mem_zip_branchOutcomes config sched hother hj hkept))
    refine hnone _ (mem_zip_branchOutcomes config sched hcall
      (joinBranches_of_noDeny config sched hnoDeny hcall) hkept) ?_
    rw [branchViolation_ownOutcome, hobjects]

/-- All plugins are called, the request stays as it is, and the first violation in input order
refuses it. -/
theorem runConcurrentPhase_spec (entries : List (HookEntry P)) (st : RunState P) :
    (runConcurrentPhase config sched entries st).1.request = st.request ∧
    (runConcurrentPhase config sched entries st).1.invocations =
      st.invocations ++ st.branchCalls entries ∧
    (runConcurrentPhase config sched entries st).2 =
      ((st.branchCalls entries).zip
        (branchOutcomes config sched (st.branchCalls entries))).findSome?
          (branchViolation config) := by
  cases entries with
  | nil => exact ⟨rfl, (List.append_nil _).symm, rfl⟩
  | cons entry entries =>
    have hlength : (branchOutcomes config sched (st.branchCalls (entry :: entries))).length =
        (entry :: entries).length := by
      simp [branchOutcomes, length_joinBranches, RunState.branchCalls]
    obtain ⟨hrequest, hinvocations, hviolation⟩ := foldl_concurrentStep config
      ((st.branchCalls (entry :: entries)).zip
        (branchOutcomes config sched (st.branchCalls (entry :: entries))))
      ({ st with invocations := st.invocations ++ st.branchCalls (entry :: entries) }, none)
    simp only [runConcurrentPhase, List.isEmpty_cons, Bool.false_eq_true, if_false, hlength,
      ne_eq, not_true_eq_false]
    exact ⟨hrequest, hinvocations, hviolation⟩

end Concurrent

end PraxisPolicy.Executor
