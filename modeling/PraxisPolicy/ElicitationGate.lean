import PraxisPolicy.EffectDispatch

/-!
# The elicitation gate

Unless `on_error` says to continue, an elicitation is passed in one way only: the check answers that
the approver agreed, the response validates, and the scope holds.
-/

namespace PraxisPolicy

open WorldTasks

variable {W : Type} {env : Invokers W} {step : ElicitStep} {bag : AttributeBag}

variable (env step bag) in
/-- From an earlier request, or from the dispatch just made. -/
inductive ElicitationKnown (w : W) : String → AttributeBag → W → Prop
  | asked {id : String} (hfrom : (resolveFrom step bag).isSome)
      (hid : bag.getString "elicitation.id" = some id) : ElicitationKnown w id bag w
  | dispatched {resolvedFrom : String} {d : ElicitationDispatch} {w₁ : W}
      (hfrom : resolveFrom step bag = some resolvedFrom)
      (hid : bag.getString "elicitation.id" = none)
      (hdispatch : env.dispatch step resolvedFrom w = (.ok (.ok d), w₁)) :
      ElicitationKnown w d.id (recordDispatch step d bag) w₁

variable (env step bag) in
inductive StoreLost (w : W) : Prop
  | dispatching {resolvedFrom code reason : String} {w₁ : W}
      (hfrom : resolveFrom step bag = some resolvedFrom)
      (hid : bag.getString "elicitation.id" = none)
      (h : env.dispatch step resolvedFrom w = (.ok (.error (.storeUnavailable code reason)), w₁))
  | checking {id code reason : String} {bag₁ : AttributeBag} {w₁ w₂ : W}
      (hknown : ElicitationKnown env step bag w id bag₁ w₁)
      (h : env.check step id w₁ = (.ok (.error (.storeUnavailable code reason)), w₂))
  | validating {id code reason : String} {bag₁ : AttributeBag} {w₁ w₂ w₃ : W}
      (hknown : ElicitationKnown env step bag w id bag₁ w₁)
      (hcheck : env.check step id w₁ = (.ok (.ok (.resolved .approved)), w₂))
      (h : env.validate step id w₂ = (.ok (.error (.storeUnavailable code reason)), w₃))

/-- A failed call continues only where `on_error` says so. -/
theorem failWithCode_ne_continue (hstrict : step.continuesOnError = false) (reason : String)
    (code : Option String) : step.failWithCode reason code ≠ .continue := by
  rw [ElicitStep.failWithCode, hstrict]
  simp

theorem invocationFailure_ne_continue (hstrict : step.continuesOnError = false) (op : String)
    (error : ElicitationError) : step.invocationFailure op error ≠ .continue := by
  cases error with
  | storeUnavailable code reason => simp [ElicitStep.invocationFailure]
  | _ => exact failWithCode_ne_continue hstrict _ _

variable {w w' : W}

theorem pure_ne_continue {outcome : EffectOutcome} {r r' : AttributeBag × ElicitVerdict}
    (h : outcome ≠ .continue) :
    (pure (outcome, r) : Task W _) w ≠ (.ok (.continue, r'), w') := by
  intro hpure
  cases hpure
  exact h rfl

def IsDenied (r : Except String (EffectOutcome × AttributeBag × ElicitVerdict) × W) : Prop :=
  ∃ reason source bag verdict w, r = (.ok (.halt (.deny reason source), bag, verdict), w)

variable [Library]

/-- The scope of the step, if it has one, parses and is true on the bag. -/
def ScopeHolds (env : Invokers W) (step : ElicitStep) (bag : AttributeBag) : Prop :=
  ∀ source, step.scope = some source →
    ∃ expr, env.parsePredicate source = .ok expr ∧ evalExpression bag expr = .ok true

theorem scopeHolds_of_scopeFailure (h : scopeFailure env step bag = none) :
    ScopeHolds env step bag := by
  intro source hsource
  rw [scopeFailure, hsource] at h
  dsimp only at h
  split at h
  · rename_i expr hparse
    refine ⟨expr, hparse, ?_⟩
    split at h
    · assumption
    · cases h
    · cases h
  · cases h

theorem ElicitationKnown.run {w w₁ : W} {id : String} {bag₁ : AttributeBag}
    (h : ElicitationKnown env step bag w id bag₁ w₁) :
    dispatchElicitation env step bag w = settleElicitation env step id bag₁ w₁ := by
  cases h with
  | asked hfrom hid =>
    obtain ⟨resolvedFrom, hfrom⟩ := Option.isSome_iff_exists.1 hfrom
    rw [dispatchElicitation, hfrom, hid]
  | dispatched hfrom hid hdispatch =>
    rw [dispatchElicitation, hfrom, hid]
    exact Task.bind_of_eq hdispatch _

variable {verdict : ElicitVerdict} {bag' : AttributeBag}

theorem known_of_continue (hstrict : step.continuesOnError = false)
    (h : dispatchElicitation env step bag w = (.ok (.continue, bag', verdict), w')) :
    ∃ id bag₁ w₁, ElicitationKnown env step bag w id bag₁ w₁ := by
  rw [dispatchElicitation] at h
  cases hfrom : resolveFrom step bag with
  | none =>
    rw [hfrom] at h
    exact absurd h (pure_ne_continue (failWithCode_ne_continue hstrict _ _))
  | some resolvedFrom =>
    cases hid : bag.getString "elicitation.id" with
    | some id => exact ⟨id, bag, w, .asked (by rw [hfrom]; rfl) hid⟩
    | none =>
      rw [hfrom, hid] at h
      obtain ⟨answer, w₁, hdispatch, h⟩ := Task.exists_of_bind_eq_ok h
      cases answer with
      | ok d => exact ⟨_, _, _, .dispatched hfrom hid hdispatch⟩
      | error e => exact absurd h (pure_ne_continue (invocationFailure_ne_continue hstrict _ _))

theorem approved_of_settleElicitation {id : String} (hstrict : step.continuesOnError = false)
    (h : settleElicitation env step id bag w = (.ok (.continue, bag', verdict), w')) :
    ∃ w₁ validation, env.check step id w = (.ok (.ok (.resolved .approved)), w₁) ∧
      env.validate step id w₁ = (.ok (.ok validation), w') ∧ validation.valid = true ∧
        ScopeHolds env step bag := by
  rw [settleElicitation] at h
  obtain ⟨status, w₁, hcheck, h⟩ := Task.exists_of_bind_eq_ok h
  split at h
  · exact absurd h (pure_ne_continue (invocationFailure_ne_continue hstrict _ _))
  · exact absurd h (pure_ne_continue nofun)
  · exact absurd h (pure_ne_continue (failWithCode_ne_continue hstrict _ _))
  · exact absurd h (pure_ne_continue nofun)
  · obtain ⟨answer, w₂, hvalidate, h⟩ := Task.exists_of_bind_eq_ok h
    split at h
    · exact absurd h (pure_ne_continue (invocationFailure_ne_continue hstrict _ _))
    · rename_i validation
      split_ifs at h with hvalid
      · cases hscope : scopeFailure env step bag with
        | some reason =>
          rw [hscope] at h
          exact absurd h (pure_ne_continue (failWithCode_ne_continue hstrict _ _))
        | none =>
          rw [hscope] at h
          cases h
          exact ⟨w₁, validation, hcheck, hvalidate, hvalid, scopeHolds_of_scopeFailure hscope⟩
      · exact absurd h (pure_ne_continue (failWithCode_ne_continue hstrict _ _))

/-- The gate of an elicitation, over whatever its calls answer. -/
theorem elicitation_gate (env : Invokers W) (step : ElicitStep) (bag : AttributeBag) (w : W) :
    (∀ bag' verdict w', dispatchElicitation env step bag w = (.ok (.continue, bag', verdict), w') →
      step.continuesOnError = false → ∃ id bag₁ w₁ w₂ validation,
        ElicitationKnown env step bag w id bag₁ w₁ ∧
        env.check step id w₁ = (.ok (.ok (.resolved .approved)), w₂) ∧
        env.validate step id w₂ = (.ok (.ok validation), w') ∧ validation.valid = true ∧
        ScopeHolds env step bag₁) ∧
    (∀ id bag₁ w₁ w₂, ElicitationKnown env step bag w id bag₁ w₁ →
      env.check step id w₁ = (.ok (.ok (.resolved .denied)), w₂) →
      IsDenied (dispatchElicitation env step bag w)) ∧
    (StoreLost env step bag w → IsDenied (dispatchElicitation env step bag w)) ∧
    ∀ id bag₁ w₁ w₂, ElicitationKnown env step bag w id bag₁ w₁ →
      env.check step id w₁ = (.ok (.ok .pending), w₂) →
      ∃ bundle bag' verdict,
        dispatchElicitation env step bag w = (.ok (.pending bundle, bag', verdict), w₂) := by
  refine ⟨fun bag' verdict w' h hstrict => ?_, fun id bag₁ w₁ w₂ hknown hcheck => ?_, fun hlost => ?_,
    fun id bag₁ w₁ w₂ hknown hcheck => ?_⟩
  · obtain ⟨id, bag₁, w₁, hknown⟩ := known_of_continue hstrict h
    rw [hknown.run] at h
    obtain ⟨w₂, validation, happroved⟩ := approved_of_settleElicitation hstrict h
    exact ⟨id, bag₁, w₁, w₂, validation, hknown, happroved⟩
  · rw [hknown.run, settleElicitation, Task.bind_of_eq hcheck]
    exact ⟨_, _, _, _, _, rfl⟩
  · cases hlost with
    | dispatching hfrom hid h =>
      rw [dispatchElicitation, hfrom, hid]
      dsimp only
      rw [Task.bind_of_eq h]
      exact ⟨_, _, _, _, _, rfl⟩
    | checking hknown h =>
      rw [hknown.run, settleElicitation, Task.bind_of_eq h]
      exact ⟨_, _, _, _, _, rfl⟩
    | validating hknown hcheck h =>
      rw [hknown.run, settleElicitation, Task.bind_of_eq hcheck]
      dsimp only
      rw [Task.bind_of_eq h]
      exact ⟨_, _, _, _, _, rfl⟩
  · rw [hknown.run, settleElicitation, Task.bind_of_eq hcheck]
    exact ⟨_, _, _, rfl⟩

end PraxisPolicy
