import PraxisPolicy.DelegationInvoker
import PraxisPolicy.ExtensionTiers

/-!
# The delegation chain over a whole request

A plugin's delegation record is merged under a check; a delegator's update is put in place as it is.
-/

namespace PraxisPolicy

open StepRuns

section Requests

variable [Library] [Contents]

inductive RequestStep where
  | plugin (step : PluginStep)
  | delegate (engine : DelegationEngine) (step : DelegateStep)

def requestStep (e : Extensions) : RequestStep → Extensions
  | .plugin s => pluginStep e s
  | .delegate engine step => (delegate engine step e).2

/-- What a plugin returns, or the update of a delegator that lets the request go on. -/
def proposedDelegation (e : Extensions) : RequestStep → Option (DelegationExtension Contents.detail)
  | .plugin s => s.returned.bind (·.delegation)
  | .delegate engine step =>
    match delegationRequest engine step e.clone with
    | .error _ => none
    | .ok request =>
      let answer := engine.invokeEntries step.pluginName request e.clone
      if engine.hasEntry step.pluginName && answer.continueProcessing then
        answer.payload.bind (·.delegationUpdate)
      else none

/-- The update extends the recorded chain, counts it right, and names the recorded origin. -/
def DelegatorExtends (e : Extensions) : RequestStep → Prop
  | .plugin _ => True
  | .delegate engine step => ∀ d ∈ proposedDelegation e (.delegate engine step),
      chainExtends e.delegationOf.chain d.chain = true ∧
      d.depth = chainDepth d.chain ∧
      ∀ id, e.delegationOf.originSubjectId = some id → d.originSubjectId = some id

def KeepsCacheFlags (e : Extensions) (step : RequestStep) : Prop :=
  ∀ d ∈ proposedDelegation e step, chainExtends e.delegationOf.chain d.chain = true →
    e.delegationOf.chain <+: d.chain

end Requests

section Steps

variable [Library] [Contents]

omit [Library] in
theorem DelegationPayload.applyToExtensions_delegation (p : DelegationPayload) (e : Extensions) :
    (p.applyToExtensions e).delegation = p.delegationUpdate.or e.delegation := by
  unfold applyToExtensions
  cases p.delegatedToken <;> cases p.delegationUpdate <;> rfl

/-- What the records at two points of a request owe to each other. -/
structure Lineage (e e' : Extensions) : Prop where
  chain : chainExtends e.delegationOf.chain e'.delegationOf.chain = true
  origin : ∀ id, e.delegationOf.originSubjectId = some id →
    e'.delegationOf.originSubjectId = some id

omit [Library] in
theorem Lineage.of_eq {e e' : Extensions} (h : e'.delegationOf = e.delegationOf) : Lineage e e' := by
  constructor
  · rw [h, chainExtends_iff]
  · rw [h]
    exact fun id hid => hid

omit [Library] in
theorem Lineage.trans {e₁ e₂ e₃ : Extensions} (h : Lineage e₁ e₂) (h' : Lineage e₂ e₃) :
    Lineage e₁ e₃ where
  chain := (chainExtends_iff _ _).mpr
    (((chainExtends_iff _ _).mp h.chain).trans ((chainExtends_iff _ _).mp h'.chain))
  origin id hid := h'.origin id (h.origin id hid)

def DepthAgrees (e : Extensions) : Prop :=
  e.delegationOf.depth = chainDepth e.delegationOf.chain

variable {e : Extensions} {s : RequestStep}

/-- A step leaves the record or puts a chain in its place that extends it. -/
theorem requestStep_delegation (hok : DelegatorExtends e s) :
    (requestStep e s).delegationOf = e.delegationOf ∨
    (Lineage e (requestStep e s) ∧ DepthAgrees (requestStep e s) ∧
      ∃ d ∈ proposedDelegation e s, (requestStep e s).delegationOf.chain = d.chain) := by
  cases s with
  | plugin s =>
    simp only [requestStep, pluginStep]
    cases hreturned : s.returned with
    | none => exact .inl rfl
    | some owned =>
      simp only [Extensions.applyModification]
      split
      · rcases delegationOf_mergeOwned e (owned.withTokens s.caps) with
          h | ⟨o, hproposed, hchain, hext, hdepth, horigin⟩
        · exact .inl h
        · refine .inr ⟨⟨hext, horigin⟩, hdepth, o, ?_, hchain⟩
          rw [proposedDelegation, hreturned]
          exact hproposed
      · exact .inl rfl
  | delegate engine step =>
    simp only [requestStep, delegate]
    split
    · rename_i hentry
      cases hrequest : delegationRequest engine step e.clone with
      | error err => exact .inl rfl
      | ok request =>
        simp only
        split
        · rename_i hcontinue
          cases hpayload : (engine.invokeEntries step.pluginName request e.clone).payload with
          | none => exact .inl rfl
          | some resolved =>
            dsimp only
            have hset := DelegationPayload.applyToExtensions_delegation resolved e.clone
            cases hupdate : resolved.delegationUpdate with
            | none =>
              rw [hupdate] at hset
              exact .inl (congrArg (Option.getD · DelegationExtension.default) hset)
            | some d =>
              rw [hupdate] at hset
              have hnew : (resolved.applyToExtensions e.clone).delegationOf = d :=
                congrArg (Option.getD · DelegationExtension.default) hset
              have hproposed : d ∈ proposedDelegation e (.delegate engine step) := by
                simp [proposedDelegation, hrequest, hentry, hcontinue, hpayload, hupdate]
              obtain ⟨hext, hdepth, horigin⟩ := hok d hproposed
              refine .inr ⟨⟨?_, ?_⟩, ?_, d, hproposed, ?_⟩
              · rw [hnew]
                exact hext
              · rw [hnew]
                exact horigin
              · rw [DepthAgrees, hnew]
                exact hdepth
              · rw [hnew]
        · exact .inl rfl
    · exact .inl rfl

theorem lineage_requestStep (hdepth : DepthAgrees e) (hok : DelegatorExtends e s) :
    Lineage e (requestStep e s) ∧ DepthAgrees (requestStep e s) := by
  rcases requestStep_delegation hok with h | ⟨hlineage, hagrees, -⟩
  · refine ⟨.of_eq h, ?_⟩
    rw [DepthAgrees, h]
    exact hdepth
  · exact ⟨hlineage, hagrees⟩

theorem prefix_requestStep (hok : DelegatorExtends e s) (hflags : KeepsCacheFlags e s) :
    e.delegationOf.chain <+: (requestStep e s).delegationOf.chain := by
  rcases requestStep_delegation hok with h | ⟨hlineage, -, d, hproposed, hchain⟩
  · rw [h]
  · rw [hchain]
    exact hflags d hproposed (hchain ▸ hlineage.chain)

theorem prefix_run {steps : List RequestStep} (hok : AllSteps requestStep DelegatorExtends e steps)
    (hflags : AllSteps requestStep KeepsCacheFlags e steps) :
    e.delegationOf.chain <+: (run requestStep e steps).delegationOf.chain := by
  induction steps generalizing e with
  | nil => exact List.prefix_rfl
  | cons s steps ih =>
    exact (prefix_requestStep hok.1 hflags.1).trans (ih hok.2 hflags.2)

end Steps

section Runs

variable [Library] [Contents]

/-- If delegators only return updates that extend the recorded chain, the chain extends every
earlier one, its depth is its length and the origin stays; an earlier chain is a prefix if no cache
flag is flipped. -/
theorem delegation_append_only_along_run (e : Extensions) (before after : List RequestStep)
    (hstart : DepthAgrees e)
    (hok : AllSteps requestStep DelegatorExtends e (before ++ after)) :
    Lineage (run requestStep e before) (run requestStep e (before ++ after)) ∧
    DepthAgrees (run requestStep e (before ++ after)) ∧
    (AllSteps requestStep KeepsCacheFlags e (before ++ after) →
      (run requestStep e before).delegationOf.chain <+:
        (run requestStep e (before ++ after)).delegationOf.chain) := by
  obtain ⟨hbefore, hafter⟩ := hok.of_append
  obtain ⟨-, hmid⟩ := rel_of_allSteps (fun e => Lineage.of_eq rfl) (fun _ _ _ => Lineage.trans)
    (fun e s => lineage_requestStep) hstart hbefore
  obtain ⟨hlineage, hend⟩ := rel_of_allSteps (fun e => Lineage.of_eq rfl)
    (fun _ _ _ => Lineage.trans) (fun e s => lineage_requestStep) hmid hafter
  rw [run_append]
  refine ⟨hlineage, hend, fun hflags => ?_⟩
  obtain ⟨-, hflags⟩ := hflags.of_append
  exact prefix_run hafter hflags

end Runs

section Cases

local instance lineageLibrary : Library := Library.ascii

local instance lineageContents : Contents := Contents.plain

def answering (update : DelegationExtension Contents.plain.detail) : DelegationEngine where
  hasEntry _ := true
  invokeEntries _ request _ := ⟨true, none, some { request with delegationUpdate := some update }⟩
  parseAttenuation _ := .error "no attenuation"

def exchangeStep : DelegateStep := ⟨"exchange", none, none, "pre_invocation[0]"⟩

theorem delegate_erases_chain :
    let e := delegatedAlong [exchangeHop false]
    let e' := run requestStep e [.delegate (answering .default) exchangeStep]
    DepthAgrees e ∧ ¬ e.delegationOf.chain <+: e'.delegationOf.chain ∧
      e.delegationOf.originSubjectId = some "alice" ∧ e'.delegationOf.originSubjectId = none := by
  refine ⟨rfl, ?_, rfl, rfl⟩
  decide

def appendingStep : RequestStep :=
  .delegate (answering ⟨[exchangeHop false, exchangeHop true], 2, some "alice", none, true, .ofInt 0⟩)
    exchangeStep

theorem delegation_append_only_along_run_appendingStep :
    let e := delegatedAlong [exchangeHop false]
    let e' := run requestStep e ([] ++ [appendingStep])
    e'.delegationOf.chain.length = 2 ∧ Lineage e e' ∧ DepthAgrees e' ∧
      e.delegationOf.chain <+: e'.delegationOf.chain := by
  have hproposed : ∀ d ∈ proposedDelegation (delegatedAlong [exchangeHop false]) appendingStep,
      d = ⟨[exchangeHop false, exchangeHop true], 2, some "alice", none, true, .ofInt 0⟩ :=
    fun d hd => (Option.some.inj hd).symm
  have hok : AllSteps requestStep DelegatorExtends (delegatedAlong [exchangeHop false])
      ([] ++ [appendingStep]) := by
    refine ⟨fun d hd => ?_, trivial⟩
    obtain rfl := hproposed d hd
    exact ⟨by decide, rfl, fun id hid => hid⟩
  have hflags : AllSteps requestStep KeepsCacheFlags (delegatedAlong [exchangeHop false])
      ([] ++ [appendingStep]) := by
    refine ⟨fun d hd _ => ?_, trivial⟩
    obtain rfl := hproposed d hd
    decide
  obtain ⟨hlineage, hdepth, hprefix⟩ := delegation_append_only_along_run
    (delegatedAlong [exchangeHop false]) [] [appendingStep] rfl hok
  exact ⟨rfl, hlineage, hdepth, hprefix hflags⟩

end Cases

end PraxisPolicy
