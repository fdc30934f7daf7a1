import PraxisPolicy.PluginExecutor

/-!
# What a run of the executor leaves behind

The handlers a run calls, each with the payload it received and how it ended, say everything about
the run.
-/

namespace PraxisPolicy.Executor

section Calls

variable [Contents] {P : Type}

def ContainedOutcome.denies : ContainedOutcome P → Bool
  | .success (some result) _ => !result.continueProcessing
  | _ => false

/-- By an error, a timeout, a panic or an unreadable result. -/
def ContainedOutcome.fails : ContainedOutcome P → Bool
  | .success (some _) _ => false
  | .success none _ => true
  | .error _ _ => true
  | .timeout _ => true
  | .panic _ => true
  | .lost => false

def ContainedOutcome.returned : ContainedOutcome P → Option (PluginPayload P)
  | .success (some result) _ => if result.continueProcessing then result.modifiedPayload else none
  | _ => none

def Invocation.phase (call : Invocation P) : PluginMode := call.entry.pluginRef.mode

/-- The plugin denied, or failed under `on_error: fail`. -/
def Invocation.objects (call : Invocation P) : Bool :=
  call.outcome.denies ||
    (call.outcome.fails && decide (call.entry.pluginRef.onError = .fail))

/-- A sequential plugin whose task is lost counts as refusing. -/
def Invocation.refuses (call : Invocation P) : Bool := match call.phase with
  | .sequential => call.objects || call.outcome.isLost
  | .concurrent => call.objects
  | _ => false

def Invocation.accepted (call : Invocation P) : Option (PluginPayload P) := match call.phase with
  | .sequential => call.outcome.returned
  | .transform => call.outcome.returned
  | _ => none

def payloadAfter (payload : PluginPayload P) (calls : List (Invocation P)) : PluginPayload P :=
  calls.foldl (fun current call => call.accepted.getD current) payload

def declinedAfter (payload : PluginPayload P) (calls : List (Invocation P)) : Bool :=
  payload.credentialDeclined ||
    calls.any fun call => call.accepted.any PluginPayload.credentialDeclined

theorem payloadAfter_append (payload : PluginPayload P) (calls more : List (Invocation P)) :
    payloadAfter payload (calls ++ more) = payloadAfter (payloadAfter payload calls) more :=
  List.foldl_append

theorem declinedAfter_append (payload : PluginPayload P) (calls more : List (Invocation P)) :
    declinedAfter payload (calls ++ more) = (declinedAfter payload calls ||
      more.any fun call => call.accepted.any PluginPayload.credentialDeclined) := by
  simp only [declinedAfter, List.any_append, Bool.or_assoc]

theorem payloadAfter_of_quiet {payload : PluginPayload P} {calls : List (Invocation P)}
    (h : ∀ call ∈ calls, call.accepted = none) : payloadAfter payload calls = payload := by
  induction calls with
  | nil => rfl
  | cons call calls ih =>
    rw [payloadAfter, List.foldl_cons, h call List.mem_cons_self]
    exact ih fun other hother => h other (List.mem_cons_of_mem _ hother)

structure Traced (payload : PluginPayload P) (st : RunState P) : Prop where
  payload_eq : st.payload = payloadAfter payload st.invocations
  declined_eq : st.credentialDeclined = declinedAfter payload st.invocations
  received : ∀ (i : ℕ) (call : Invocation P), st.invocations[i]? = some call →
    call.received = payloadAfter payload (st.invocations.take i)

variable {payload : PluginPayload P} {st st' : RunState P} {calls : List (Invocation P)}

theorem received_append {payload : PluginPayload P} {before calls : List (Invocation P)}
    (hbefore : ∀ (i : ℕ) (call : Invocation P), before[i]? = some call →
      call.received = payloadAfter payload (before.take i))
    (hcalls : ∀ (i : ℕ) (call : Invocation P), calls[i]? = some call →
      call.received = payloadAfter (payloadAfter payload before) (calls.take i))
    (i : ℕ) (call : Invocation P) (h : (before ++ calls)[i]? = some call) :
    call.received = payloadAfter payload ((before ++ calls).take i) := by
  rcases lt_or_ge i before.length with hlt | hge
  · rw [List.getElem?_append_left hlt] at h
    rw [List.take_append_of_le_length hlt.le]
    exact hbefore i call h
  · rw [List.getElem?_append_right hge] at h
    rw [List.take_append, List.take_of_length_le hge, payloadAfter_append]
    exact hcalls _ call h

theorem Traced.serial {entry : HookEntry P} {outcome : ContainedOutcome P} (h : Traced payload st)
    (hmode : entry.pluginRef.mode = .sequential ∨ entry.pluginRef.mode = .transform)
    (hcalls : st'.invocations = st.invocations ++ [⟨entry, st.payload, outcome⟩])
    (hpayload : st'.payload = outcome.returned.getD st.payload)
    (hdeclined : st'.credentialDeclined =
      (st.credentialDeclined || outcome.returned.any PluginPayload.credentialDeclined)) :
    Traced payload st' := by
  have haccepted : (⟨entry, st.payload, outcome⟩ : Invocation P).accepted = outcome.returned := by
    rcases hmode with hmode | hmode <;> simp [Invocation.accepted, Invocation.phase, hmode]
  refine ⟨?_, ?_, ?_⟩
  · rw [hpayload, hcalls, payloadAfter_append, ← h.payload_eq, payloadAfter, List.foldl_cons,
      List.foldl_nil, haccepted]
  · rw [hdeclined, hcalls, declinedAfter_append, ← h.declined_eq, List.any_cons, List.any_nil,
      haccepted, Bool.or_false]
  · rw [hcalls]
    refine received_append h.received fun i call hcall => ?_
    obtain ⟨rfl, rfl⟩ : i = 0 ∧ (⟨entry, st.payload, outcome⟩ : Invocation P) = call := by
      cases i with
      | zero => simpa using hcall
      | succ i => simp at hcall
    exact h.payload_eq

end Calls

section Settling

variable [Contents] {P : Type} (config : ExecutorConfig) (canBlock : Bool) (st : RunState P)
  (entry : HookEntry P)

@[simp] theorem record_payload (action : PluginAction) :
    (st.record entry action).payload = st.payload := rfl

@[simp] theorem record_credentialDeclined (action : PluginAction) :
    (st.record entry action).credentialDeclined = st.credentialDeclined := rfl

@[simp] theorem record_invocations (action : PluginAction) :
    (st.record entry action).invocations = st.invocations := rfl

@[simp] theorem pushError_payload (error : PluginError) :
    (st.pushError error).payload = st.payload := rfl

@[simp] theorem pushError_credentialDeclined (error : PluginError) :
    (st.pushError error).credentialDeclined = st.credentialDeclined := rfl

@[simp] theorem pushError_invocations (error : PluginError) :
    (st.pushError error).invocations = st.invocations := rfl

@[simp] theorem disableOn_payload : (st.disableOn entry).payload = st.payload := by
  unfold RunState.disableOn
  split_ifs <;> rfl

@[simp] theorem disableOn_credentialDeclined :
    (st.disableOn entry).credentialDeclined = st.credentialDeclined := by
  unfold RunState.disableOn
  split_ifs <;> rfl

@[simp] theorem disableOn_invocations : (st.disableOn entry).invocations = st.invocations := by
  unfold RunState.disableOn
  split_ifs <;> rfl

@[simp] theorem storeContext_payload (context : Option PluginContext) :
    (st.storeContext entry context).payload = st.payload := by
  cases context <;> rfl

@[simp] theorem storeContext_credentialDeclined (context : Option PluginContext) :
    (st.storeContext entry context).credentialDeclined = st.credentialDeclined := by
  cases context <;> rfl

@[simp] theorem storeContext_invocations (context : Option PluginContext) :
    (st.storeContext entry context).invocations = st.invocations := by
  cases context <;> rfl

@[simp] theorem acceptPayload_payload (payload : Option (PluginPayload P)) :
    (st.acceptPayload payload).payload = payload.getD st.payload := by
  cases payload <;> rfl

@[simp] theorem acceptPayload_credentialDeclined (payload : Option (PluginPayload P)) :
    (st.acceptPayload payload).credentialDeclined =
      (st.credentialDeclined || payload.any PluginPayload.credentialDeclined) := by
  cases payload <;> simp [RunState.acceptPayload]

@[simp] theorem acceptPayload_invocations (payload : Option (PluginPayload P)) :
    (st.acceptPayload payload).invocations = st.invocations := by
  cases payload <;> rfl

@[simp] theorem acceptExtensions_payload (capabilities : Finset String)
    (owned : Option OwnedExtensions) :
    (st.acceptExtensions capabilities owned).payload = st.payload := by
  cases owned <;> rfl

@[simp] theorem acceptExtensions_credentialDeclined (capabilities : Finset String)
    (owned : Option OwnedExtensions) :
    (st.acceptExtensions capabilities owned).credentialDeclined = st.credentialDeclined := by
  cases owned <;> rfl

@[simp] theorem acceptExtensions_invocations (capabilities : Finset String)
    (owned : Option OwnedExtensions) :
    (st.acceptExtensions capabilities owned).invocations = st.invocations := by
  cases owned <;> rfl

structure Settled (outcome : ContainedOutcome P) (halts : Bool) (st : RunState P)
    (settled : RunState P × Option PluginViolation) : Prop where
  payload_eq : settled.1.payload = outcome.returned.getD st.payload
  declined_eq : settled.1.credentialDeclined =
    (st.credentialDeclined || outcome.returned.any PluginPayload.credentialDeclined)
  invocations_eq : settled.1.invocations = st.invocations
  halts_eq : settled.2.isSome = halts

theorem serialFault_settled {outcome : ContainedOutcome P} (hnone : outcome.returned = none)
    (halting : Bool) (context : Option PluginContext) (fault : Fault) :
    Settled outcome (halting && canBlock) st
      (st.serialFault canBlock entry halting context fault) := by
  unfold RunState.serialFault
  cases hhalts : halting && canBlock <;> constructor <;> simp [hnone]

def haltsSerial (outcome : ContainedOutcome P) : Bool :=
  outcome.denies || (outcome.fails && decide (entry.pluginRef.onError = .fail)) || outcome.isLost

theorem settle_settled (outcome : ContainedOutcome P) :
    Settled outcome (haltsSerial entry outcome && canBlock) st
      (st.settle config canBlock true entry outcome) := by
  have hfails : (decide (entry.pluginRef.onError = .fail) || false) =
      decide (entry.pluginRef.onError = .fail) := Bool.or_false _
  cases outcome with
  | success result context =>
    cases result with
    | none =>
      rw [show haltsSerial entry (.success none context) = _ from hfails]
      exact serialFault_settled canBlock st entry rfl _ _ _
    | some result =>
      cases hcontinue : result.continueProcessing with
      | true =>
        constructor <;>
          simp [RunState.settle, haltsSerial, ContainedOutcome.returned, ContainedOutcome.denies,
            ContainedOutcome.fails, ContainedOutcome.isLost, hcontinue]
      | false =>
        cases canBlock <;> constructor <;>
          simp [RunState.settle, haltsSerial, ContainedOutcome.returned, ContainedOutcome.denies,
            hcontinue]
  | error error context =>
    rw [show haltsSerial entry (.error error context) = _ from hfails]
    exact serialFault_settled canBlock st entry rfl _ _ _
  | timeout context =>
    rw [show haltsSerial entry (.timeout context) = _ from hfails]
    exact serialFault_settled canBlock st entry rfl _ _ _
  | panic message =>
    rw [show haltsSerial entry (.panic message) = _ from hfails]
    exact serialFault_settled canBlock st entry rfl _ _ _
  | lost => exact serialFault_settled canBlock st entry rfl _ _ _

end Settling

section Serial

variable [Contents] {P : Type} (config : ExecutorConfig) {payload : PluginPayload P}

/-- The plugins called are the first of the list, the trace explains the state, and the phase
refused if it may block and one of them did. -/
structure SerialRun (payload : PluginPayload P) (canBlock : Bool) (entries : List (HookEntry P))
    (st : RunState P) (done : RunState P × Option PluginViolation)
    (calls : List (Invocation P)) : Prop where
  invocations_eq : done.1.invocations = st.invocations ++ calls
  entries_prefix : calls.map Invocation.entry <+: entries
  traced : Traced payload done.1
  refused_iff : done.2.isSome = true ↔
    canBlock = true ∧ ∃ call ∈ calls, haltsSerial call.entry call.outcome = true

theorem runSerialPhase_run (canBlock : Bool) (entries : List (HookEntry P)) (st : RunState P)
    (hmode : ∀ entry ∈ entries,
      entry.pluginRef.mode = .sequential ∨ entry.pluginRef.mode = .transform)
    (htraced : Traced payload st) :
    ∃ calls, SerialRun payload canBlock entries st
      (runSerialPhase config canBlock true entries st) calls := by
  induction entries generalizing st with
  | nil => exact ⟨[], by simp [runSerialPhase], List.prefix_refl _, htraced, by simp [runSerialPhase]⟩
  | cons entry entries ih =>
    have hsettled := settle_settled config canBlock
      (st.invoke entry (st.serialOutcome config entry)) entry (st.serialOutcome config entry)
    have hcalled : Traced payload (st.serialStep config canBlock true entry).1 :=
      htraced.serial (hmode entry List.mem_cons_self) hsettled.invocations_eq hsettled.payload_eq
        hsettled.declined_eq
    have hinvocations := hsettled.invocations_eq
    have hhalts := hsettled.halts_eq
    rw [runSerialPhase]
    change (st.serialStep config canBlock true entry).1.invocations =
      st.invocations ++ [⟨entry, st.payload, st.serialOutcome config entry⟩] at hinvocations
    change (st.serialStep config canBlock true entry).2.isSome = _ at hhalts
    -- The phase stops behind this plugin, or goes on with the state it left.
    rcases hstep : st.serialStep config canBlock true entry with ⟨st', _ | violation⟩
    · rw [hstep] at hcalled hinvocations hhalts
      obtain ⟨calls, hrun⟩ :=
        ih st' (fun other hother => hmode other (List.mem_cons_of_mem _ hother)) hcalled
      refine ⟨⟨entry, st.payload, st.serialOutcome config entry⟩ :: calls, ?_, ?_, hrun.traced, ?_⟩
      · rw [hrun.invocations_eq, hinvocations, List.append_assoc, List.singleton_append]
      · exact (List.prefix_cons_inj entry).mpr hrun.entries_prefix
      · have hpassed : ¬ (canBlock = true ∧
            haltsSerial entry (st.serialOutcome config entry) = true) := by
          rintro ⟨hblock, hhalting⟩
          rw [hblock, hhalting] at hhalts
          cases hhalts
        rw [hrun.refused_iff]
        simp only [List.mem_cons, exists_eq_or_imp]
        tauto
    · rw [hstep] at hcalled hinvocations hhalts
      have hboth : haltsSerial entry (st.serialOutcome config entry) = true ∧ canBlock = true := by
        simpa using hhalts.symm
      exact ⟨[⟨entry, st.payload, st.serialOutcome config entry⟩], hinvocations,
        by simp, hcalled, by simp [hboth]⟩

end Serial

end PraxisPolicy.Executor
