import PraxisPolicy.RoutePhases

/-!
# Inline field operations

Pipelines declared for a field and those written as effects are run by loops of their own, which do
the same up to the text of a deny.
-/

namespace PraxisPolicy

open JsonValues TextScanning WorldTasks

theorem stripPrefix_args_result (field : String) :
    stripPrefix "args." ("result." ++ field) = none := by
  simp [stripPrefix]

/-- They agree, deny texts apart. -/
structure SameFields (inline : StepsEvaluation × Walk) (declared : RouteOutcome) : Prop where
  payload : inline.2.payload = declared.payload
  bag : inline.2.bag = declared.bag
  allows : inline.1.decision = .allow ↔ declared.decision.decision = .allow
  taints : inline.1.taints = declared.decision.taints
  constraints : inline.1.constraints = declared.decision.constraints
  argsModified : inline.1.argsModified = declared.decision.argsModified
  resultModified : inline.1.resultModified = declared.decision.resultModified
  pending : inline.1.pending = declared.decision.pending

/-- The walk that has come through a half with what its rules made of one side. -/
def Walk.absorb (s : Walk) (side : Side) (run : FieldRun) (visits : List Visit) : Walk :=
  { s with
    payload := match side with
      | .args => { s.payload with args := run.root }
      | .result => { s.payload with result := some run.root }
    taints := run.taints
    argsModified := s.argsModified || (decide (side = .args) && run.modified)
    resultModified := s.resultModified || (decide (side = .result) && run.modified)
    visits := visits }

/-- Both went on, or both were denied, and the walk holds what the run made of the field. -/
structure SameField (s : Walk) (side : Side) (a : Walk × Option EffectOutcome)
    (b : FieldRun × Option Decision) : Prop where
  walk : ∃ visits, a.1 = s.absorb side b.1 visits
  outcome : a.2 = none ∧ b.2 = none ∨ ∃ reason source reason' source',
    a.2 = some (.halt (.deny reason source)) ∧ b.2 = some (.deny reason' source')

theorem absorb_side (s : Walk) (side : Side) (run : FieldRun) (visits : List Visit) :
    (s.absorb side run visits).payload.side side = some run.root := by
  cases side <;> rfl

theorem rewrite_absorb (s : Walk) (side : Side) (run : FieldRun) (visits : List Visit)
    (change : Json → Json × Bool) :
    (s.absorb side run visits).rewrite change side =
      s.absorb side (run.write (change run.root)) visits := by
  cases side <;> simp [Walk.absorb, Walk.rewrite, FieldRun.write, Bool.or_assoc]

variable [Library] {W : Type}

/-- The two loops, written apart, do the same at every path. -/
theorem matches_fieldAt (env : Invokers W) (s : Walk) (side : Side) (fallbackSource : String)
    (rule : FieldRule) (phase : DispatchPhase) (path : List String) (t : Walk) (run : FieldRun)
    (h : SameField s side (t, none) (run, none)) :
    Task.Matches id (fieldOpAt env side rule.field rule.stages fallbackSource phase path t)
      (fieldRuleAt env s.bag phase rule path run) (SameField s side) := by
  obtain ⟨visits, rfl⟩ := h.walk
  rw [fieldOpAt, fieldRuleAt]
  simp only [absorb_side, Option.bind_some]
  cases getConcrete run.root path with
  | none => exact Task.matches_pure h
  | some current =>
    refine (Task.matches_self _).bind ?_
    rintro eval _ rfl
    -- the taints of the pipeline are kept before its outcome is looked at
    have hwrite := rewrite_absorb s side { run with taints := run.taints ++ eval.taints }
    cases eval.outcome with
    | pass => exact Task.matches_pure ⟨⟨_, rfl⟩, .inl ⟨rfl, rfl⟩⟩
    | replace value =>
      exact Task.matches_pure ⟨⟨_, hwrite _ (setConcrete · path value)⟩, .inl ⟨rfl, rfl⟩⟩
    | «omit» => exact Task.matches_pure ⟨⟨_, hwrite _ (removeConcrete · path)⟩, .inl ⟨rfl, rfl⟩⟩
    | deny reason i => exact Task.matches_pure ⟨⟨_, rfl⟩, .inr ⟨_, _, _, _, rfl, rfl⟩⟩

theorem matches_fieldSide (env : Invokers W) (side : Side) (root : Json) (path : String)
    (rule : FieldRule) (fallbackSource name : String) (phase : DispatchPhase) (s : Walk)
    (hroot : s.payload.side side = some root) :
    Task.Matches id
      (dispatchFieldSide env side root path rule.field rule.stages fallbackSource phase s)
      (fieldRule env s.bag phase name rule ⟨root, s.taints, false⟩)
      fun a b => ∃ halted, a.1 = halted.getD .continue ∧ SameField s side (a.2, halted) b := by
  have hstart : ∀ visits,
      { s with visits := visits } = s.absorb side ⟨root, s.taints, false⟩ visits := by
    intro visits
    cases side with
    | args =>
      cases hroot
      simp [Walk.absorb]
    | result =>
      simp only [RoutePayload.side] at hroot
      simp [Walk.absorb, ← hroot]
  rw [dispatchFieldSide, fieldRule]
  cases expandForPipeline root rule.field rule.stages with
  | none =>
    exact Task.matches_pure ⟨some _, rfl, ⟨_, hstart _⟩, .inr ⟨_, _, _, _, rfl, rfl⟩⟩
  | some paths =>
    dsimp only
    rw [← Task.bind_return (Task.forEach (fieldRuleAt env s.bag phase rule) _ _)]
    refine (Task.matches_forEach (R := SameField s side) ?_
      (matches_fieldAt env s side fallbackSource rule phase) _
      ⟨⟨s.visits, hstart _⟩, .inl ⟨rfl, rfl⟩⟩).bind ?_
    · rintro a b ⟨-, ⟨ha, hb⟩ | ⟨_, _, _, _, ha, hb⟩⟩ <;> simp [ha, hb]
    · rintro ⟨t, halted⟩ ⟨run, denied⟩ hsame
      exact Task.matches_pure ⟨halted, rfl, hsame⟩

/-- An inline operation on a field means what declaring its pipeline for the field means. -/
theorem inline_field_like_declared (env : Invokers W) (field : String) (stages : List Stage)
    (source key : String) (bag : AttributeBag) (payload : RoutePayload) :
    (∀ result postInvocation, Task.Matches id
      (evaluateEffects env [.fieldOp ("args." ++ field) stages] bag .pre payload)
      (evaluatePre env ⟨key, [⟨field, stages, source⟩], [], result, postInvocation⟩ bag payload)
      SameFields) ∧
    ∀ args preInvocation, Task.Matches id
      (evaluateEffects env [.fieldOp ("result." ++ field) stages] bag .post payload)
      (evaluatePost env ⟨key, args, preInvocation, [⟨field, stages, source⟩], []⟩ bag payload)
      SameFields := by
  refine ⟨fun result postInvocation => ?_, fun args preInvocation => ?_⟩
  · rw [evaluateEffects, runPhase, dispatchEffect, dispatchFieldOp, stripPrefix_append]
    simp only [↓reduceIte]
    rw [evaluatePre]
    rw [argsRules, Task.forEach_singleton]
    refine (matches_fieldSide env .args payload.args _ ⟨field, stages, source⟩ _ "args" .pre
      ⟨bag, payload, [], [], false, false, []⟩ rfl).bind ?_
    rintro ⟨outcome, walk⟩ ⟨run, denied⟩ ⟨halted, rfl, ⟨visits, rfl⟩, hends⟩
    rcases hends with ⟨rfl, rfl⟩ | ⟨reason, source, reason', source', rfl, rfl⟩
    · refine Task.matches_pure ⟨rfl, rfl, Iff.rfl, ?_, rfl, ?_, rfl, rfl⟩
      · simp [Walk.finish, Walk.absorb]
      · simp [Walk.finish, Walk.absorb]
    · refine Task.matches_pure ⟨rfl, rfl, ?_, rfl, rfl, ?_, rfl, rfl⟩
      · simp [Walk.finish]
      · simp [Walk.finish, Walk.absorb]
  · rw [evaluateEffects, runPhase, dispatchEffect, dispatchFieldOp, stripPrefix_args_result,
      stripPrefix_append]
    simp only [↓reduceIte]
    rw [evaluatePost]
    cases hresult : payload.result with
    | none =>
      refine Task.matches_pure ⟨?_, rfl, Iff.rfl, rfl, rfl, rfl, rfl, rfl⟩
      exact congrArg (fun result => { payload with result := result }) hresult
    | some result =>
      dsimp only
      rw [resultRules, Task.forEach_singleton]
      refine (matches_fieldSide env .result result _ ⟨field, stages, source⟩ _ "result" .post
        ⟨bag, payload, [], [], false, false, []⟩ hresult).bind ?_
      rintro ⟨outcome, walk⟩ ⟨run, denied⟩ ⟨halted, rfl, ⟨visits, rfl⟩, hends⟩
      rcases hends with ⟨rfl, rfl⟩ | ⟨reason, source, reason', source', rfl, rfl⟩
      · refine Task.matches_pure ⟨rfl, rfl, Iff.rfl, ?_, rfl, rfl, ?_, rfl⟩
        · simp [Walk.finish, Walk.absorb]
        · simp [Walk.finish, Walk.absorb]
      · refine Task.matches_pure ⟨rfl, rfl, ?_, rfl, rfl, rfl, ?_, rfl⟩
        · simp [Walk.finish]
        · simp [Walk.finish, Walk.absorb]

end PraxisPolicy
