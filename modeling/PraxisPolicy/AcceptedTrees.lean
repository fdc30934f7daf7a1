import PraxisPolicy.ParallelRefinement
import PraxisPolicy.StepParsing

/-!
# The trees the parser accepts

Every tree that the step parser builds passes the check on `parallel:` nodes, so the simulation of
parallel evaluation applies to it.
-/

namespace PraxisPolicy

open WorldTasks

section Nodes

inductive Effect.Within : Effect → Effect → Prop where
  | self {e : Effect} : Within e e
  | sequential {e child : Effect} {es : List Effect} (hchild : child ∈ es) (h : Within e child) :
      Within e (.sequential es)
  | parallel {e child : Effect} {es : List Effect} (hchild : child ∈ es) (h : Within e child) :
      Within e (.parallel es)
  | when {e child : Effect} {condition : Expression} {body : List Effect} {source : String}
      (hchild : child ∈ body) (h : Within e child) : Within e (.when condition body source)
  | onAllow {e child : Effect} {call : PdpCall} {onAllow onDeny : List Effect}
      (hchild : child ∈ onAllow) (h : Within e child) : Within e (.pdp call onAllow onDeny)
  | onDeny {e child : Effect} {call : PdpCall} {onAllow onDeny : List Effect}
      (hchild : child ∈ onDeny) (h : Within e child) : Within e (.pdp call onAllow onDeny)

def Effect.Mutates : Effect → Prop
  | .fieldOp _ _ | .delegate _ | .elicit _ => True
  | _ => False

variable {e node : Effect}

theorem Effect.Within.containsMutation (h : node.Within e) (he : e.containsMutation = false) :
    node.containsMutation = false := by
  induction h with
  | self => exact he
  | sequential hchild _ ih | parallel hchild _ ih | when hchild _ ih =>
    rw [Effect.containsMutation, Effect.anyContainsMutation_eq_false] at he
    exact ih (he _ hchild)
  | onAllow hchild _ ih =>
    rw [Effect.containsMutation, Bool.or_eq_false_iff, Effect.anyContainsMutation_eq_false] at he
    exact ih (he.1 _ hchild)
  | onDeny hchild _ ih =>
    rw [Effect.containsMutation, Bool.or_eq_false_iff, Effect.anyContainsMutation_eq_false,
      Effect.anyContainsMutation_eq_false] at he
    exact ih (he.2 _ hchild)

theorem Effect.Within.validateParallelPurity (h : node.Within e)
    (he : e.validateParallelPurity = .ok ()) : node.validateParallelPurity = .ok () := by
  induction h with
  | self => exact he
  | sequential hchild _ ih | when hchild _ ih =>
    rw [Effect.validateParallelPurity, Effect.validateEach_ok_iff] at he
    exact ih (he _ hchild)
  | parallel hchild _ ih =>
    rw [Effect.validateParallelPurity, Effect.validateBranches_ok_iff] at he
    exact ih (he _ hchild).2
  | onAllow hchild _ ih => exact ih ((Effect.validateParallelPurity_pdp_ok_iff.1 he).1 _ hchild)
  | onDeny hchild _ ih => exact ih ((Effect.validateParallelPurity_pdp_ok_iff.1 he).2 _ hchild)

end Nodes

section Leaves

theorem exists_of_bind_eq_ok {ε α β : Type} {x : Except ε α} {f : α → Except ε β} {b : β}
    (h : (x >>= f) = .ok b) : ∃ a, x = .ok a ∧ f a = .ok b := by
  cases x with
  | error err => cases h
  | ok a => exact ⟨a, rfl, h⟩

theorem exists_of_map_eq_ok {ε α β : Type} {x : Except ε α} {f : α → β} {b : β}
    (h : x.map f = .ok b) : ∃ a, x = .ok a ∧ f a = b := by
  cases x with
  | error err => cases h
  | ok a => exact ⟨a, rfl, Except.ok.inj h⟩

/-- A tree that passes the check on its `parallel:` nodes. -/
def Effect.Checked (e : Effect) : Prop := e.validateParallelPurity = .ok ()

variable {src : List Char} {effects : List Effect} {rule : String} {step : PolicyStep}

theorem checked_tryBareAction
    (h : tryBareAction src = some effects) : ∀ e ∈ effects, e.Checked := by
  unfold tryBareAction at h
  split at h <;> cases h
  · exact List.forall_mem_singleton.2 rfl
  · exact List.forall_mem_singleton.2 rfl

theorem checked_tryParseDenyCall {e : Effect}
    (h : tryParseDenyCall src rule = .ok (some e)) : e.Checked := by
  unfold tryParseDenyCall at h
  repeat' split at h
  all_goals cases h
  rfl

theorem checked_parseAction
    (h : parseAction src rule = .ok effects) : ∀ e ∈ effects, e.Checked := by
  unfold parseAction at h
  split at h
  · rename_i hbare
    cases h
    exact checked_tryBareAction hbare
  · split at h
    · cases h
    · rename_i hdeny
      cases h
      exact List.forall_mem_singleton.2 (checked_tryParseDenyCall hdeny)
    · cases h

theorem checked_stepToEffect {source : String} {e : Effect}
    (h : stepToEffect step source = .ok e) : e.Checked := by
  unfold stepToEffect at h
  split at h <;> cases h <;> rfl

def PolicyStep.Checked (step : PolicyStep) : Prop := (stepToTopLevelEffect step).Checked

theorem checked_rule {condition : Expression} {source : String} (h : ∀ e ∈ effects, e.Checked) :
    (PolicyStep.rule ⟨condition, effects, source⟩).Checked := by
  rw [PolicyStep.Checked, stepToTopLevelEffect, Effect.Checked, Effect.validateParallelPurity,
    Effect.validateEach_ok_iff]
  exact h

variable [Library] [FloatText]

theorem effects_of_guardedRule {predicate : List Char}
    {rule source : String} {r : Rule} (h : guardedRule predicate effects rule source = .ok r) :
    r.effects = effects := by
  unfold guardedRule at h
  repeat' split at h
  all_goals cases h
  rfl

variable {line source : String}

theorem checked_parseRule {r : Rule} (h : parseRule line source = .ok r) :
    ∀ e ∈ r.effects, e.Checked := by
  have hdeny : ∀ {reason code}, (Effect.deny reason code).Checked := rfl
  unfold parseRule at h
  dsimp only at h
  split_ifs at h
  split at h
  · cases h
  · split at h
    · split at h
      · rename_i haction
        rw [effects_of_guardedRule h]
        exact checked_parseAction haction
      · cases h
    · split at h
      · rename_i hbare
        cases h
        exact checked_tryBareAction hbare
      · split at h
        · cases h
        · rename_i hcall
          cases h
          exact List.forall_mem_singleton.2 (checked_tryParseDenyCall hcall)
        · rw [effects_of_guardedRule h]
          exact List.forall_mem_singleton.2 hdeny

variable [PolicyText]

theorem checked_parseStepString
    (h : parseStepString line source = .ok step) : step.Checked := by
  unfold parseStepString at h
  dsimp only at h
  split_ifs at h
  · obtain ⟨_, -, h⟩ := exists_of_bind_eq_ok h
    obtain ⟨_, -, h⟩ := exists_of_bind_eq_ok h
    cases h
    rfl
  · unfold runStep at h
    obtain ⟨_, -, h⟩ := exists_of_bind_eq_ok h
    dsimp only at h
    split_ifs at h
    · cases h
    · cases h
      rfl
  · obtain ⟨_, -, h⟩ := exists_of_bind_eq_ok h
    obtain ⟨_, -, h⟩ := exists_of_bind_eq_ok h
    cases h
    rfl
  · split at h
    · obtain ⟨_, -, h⟩ := exists_of_bind_eq_ok h
      obtain ⟨_, -, h⟩ := exists_of_bind_eq_ok h
      cases h
      rfl
    · obtain ⟨rule, hrule, rfl⟩ := exists_of_map_eq_ok h
      exact checked_rule (checked_parseRule hrule)

theorem checked_tryParseFieldOp {e : Effect}
    (h : tryParseFieldOp src rule = .ok (some e)) : e.Checked := by
  unfold tryParseFieldOp at h
  dsimp only at h
  split at h
  · cases h
  · split_ifs at h
    · cases h
    · split at h
      · cases h
      · split_ifs at h
        cases h
        rfl

theorem checked_parseEffectString {s source : String} {e : Effect}
    (h : parseEffectString s source = .ok e) : e.Checked := by
  unfold parseEffectString at h
  dsimp only at h
  split at h
  · rename_i hbare
    cases h
    exact List.forall_mem_singleton.1 (checked_tryBareAction hbare)
  · split at h
    · cases h
    · rename_i hdeny
      cases h
      exact checked_tryParseDenyCall hdeny
    · split at h
      · cases h
      · rename_i hop
        cases h
        exact checked_tryParseFieldOp hop
      · obtain ⟨step, -, h⟩ := exists_of_bind_eq_ok h
        exact checked_stepToEffect h

end Leaves

section Documents

theorem checked_stepsToTopLevelEffects {steps : List PolicyStep}
    (h : ∀ step ∈ steps, step.Checked) : ∀ e ∈ stepsToTopLevelEffects steps, e.Checked := by
  induction steps with
  | nil => exact List.forall_mem_nil _
  | cons step steps ih =>
    obtain ⟨hstep, hsteps⟩ := List.forall_mem_cons.1 h
    exact List.forall_mem_cons.2 ⟨hstep, ih hsteps⟩

variable {source : String} {effects : List Effect} {condition : Expression} {step : PolicyStep}

theorem checked_ruleWithEffects {predicate rule shown missing source : String}
    (heffects : ∀ e ∈ effects, e.Checked)
    (h : ruleWithEffects condition predicate rule shown missing source effects = .ok step) :
    step.Checked := by
  unfold ruleWithEffects at h
  split_ifs at h
  · cases h
  · obtain ⟨_, -, h⟩ := exists_of_bind_eq_ok h
    cases h
    exact checked_rule heffects

variable [Library] [FloatText] [PolicyText]

theorem checked_parseParallelEffect (body : Yaml) {e : Effect}
    (h : parseParallelEffect body source = .ok e) : e.Checked := by
  rw [parseParallelEffect] at h
  split at h
  · cases h
  · obtain ⟨effects, -, h⟩ := exists_of_bind_eq_ok h
    unfold checkedParallel at h
    split at h
    · rename_i hvalid
      cases h
      exact hvalid
    · cases h

mutual

theorem checked_parseEffectValue (value : Yaml) {source : String} {e : Effect}
    (h : parseEffectValue value source = .ok e) : e.Checked := by
  rw [parseEffectValue.eq_def] at h
  split at h
  · exact checked_parseEffectString h
  · split at h
    · exact checked_parseSequentialEffect _ h
    · exact checked_parseParallelEffect _ h
    · obtain ⟨_, -, rfl⟩ := exists_of_map_eq_ok h
      rfl
    · obtain ⟨step, -, h⟩ := exists_of_bind_eq_ok h
      exact checked_stepToEffect h
  · cases h
termination_by 4 * sizeOf value + 2

theorem checked_parseEffectValues (items : List Yaml) {source : String} {effects : List Effect}
    (h : parseEffectValues items source = .ok effects) : ∀ e ∈ effects, e.Checked := by
  rw [parseEffectValues.eq_def] at h
  split at h
  · cases h
    exact List.forall_mem_nil _
  · obtain ⟨e, he, h⟩ := exists_of_bind_eq_ok h
    obtain ⟨rest, hrest, h⟩ := exists_of_bind_eq_ok h
    cases h
    exact List.forall_mem_cons.2 ⟨checked_parseEffectValue _ he, checked_parseEffectValues _ hrest⟩
termination_by 4 * sizeOf items

theorem checked_parseSequentialEffect (body : Yaml) {source : String} {e : Effect}
    (h : parseSequentialEffect body source = .ok e) : e.Checked := by
  rw [parseSequentialEffect] at h
  split at h
  · cases h
  · rename_i items hitems
    have := sizeOf_groupItems hitems
    obtain ⟨effects, heffects, h⟩ := exists_of_bind_eq_ok h
    cases h
    rw [Effect.Checked, Effect.validateParallelPurity, Effect.validateEach_ok_iff]
    exact checked_parseEffectValues items heffects
termination_by 4 * sizeOf body

end

theorem checked_parseDoBody (value : Yaml)
    (h : parseDoBody value source = .ok effects) : ∀ e ∈ effects, e.Checked := by
  rw [parseDoBody.eq_def] at h
  split at h
  · obtain ⟨e, he, h⟩ := exists_of_bind_eq_ok h
    cases h
    exact List.forall_mem_singleton.2 (checked_parseEffectString he)
  · exact checked_parseEffectValues _ h
  · obtain ⟨e, he, h⟩ := exists_of_bind_eq_ok h
    cases h
    exact List.forall_mem_singleton.2 (checked_parseEffectValue _ he)
  · cases h

theorem checked_parseShorthandMultiEffect {predicate : String} (items : List Yaml)
    (h : parseShorthandMultiEffect predicate items source = .ok step) : step.Checked := by
  rw [parseShorthandMultiEffect] at h
  obtain ⟨condition, -, h⟩ := exists_of_bind_eq_ok h
  obtain ⟨effects, heffects, h⟩ := exists_of_bind_eq_ok h
  exact checked_ruleWithEffects (checked_parseEffectValues items heffects) h

theorem checked_parseWhenDoRule (m : List (Yaml × Yaml))
    (h : parseWhenDoRule m source = .ok step) : step.Checked := by
  rw [parseWhenDoRule] at h
  dsimp only at h
  split at h
  · cases h
  · split at h
    · cases h
    · rename_i doVal _
      obtain ⟨effects, heffects, h⟩ := exists_of_bind_eq_ok h
      exact checked_ruleWithEffects (checked_parseDoBody doVal heffects) h

mutual

theorem checked_parseStep (value : Yaml) {source : String} {step : PolicyStep}
    (h : parseStep value source = .ok step) : step.Checked := by
  rw [parseStep.eq_def] at h
  split at h
  · exact checked_parseStepString h
  · exact checked_parseStepMap _ h
  · cases h
termination_by 4 * sizeOf value + 1

theorem checked_parseStepMap (m : List (Yaml × Yaml)) {source : String} {step : PolicyStep}
    (h : parseStepMap m source = .ok step) : step.Checked := by
  rw [parseStepMap.eq_def] at h
  split at h
  · exact checked_parseWhenDoRule m h
  · split at h
    · split at h
      · cases h
      · exact checked_parseKeyedStep _ h
    · cases h
termination_by 4 * sizeOf m + 1

theorem checked_parseKeyedStep {key : String} (body : Yaml) {source : String} {step : PolicyStep}
    (h : parseKeyedStep key body source = .ok step) : step.Checked := by
  rw [parseKeyedStep.eq_def] at h
  split at h
  · split at h
    · exact checked_parseShorthandMultiEffect _ h
    · exact checked_parseStructuredStep _ h
  · exact checked_parseStructuredStep _ h
termination_by 4 * sizeOf body + 2

theorem checked_parseStructuredStep {key : String} (body : Yaml) {source : String}
    {step : PolicyStep} (h : parseStructuredStep key body source = .ok step) : step.Checked := by
  rw [parseStructuredStep.eq_def] at h
  split at h
  · obtain ⟨_, -, rfl⟩ := exists_of_map_eq_ok h
    rfl
  · obtain ⟨_, -, rfl⟩ := exists_of_map_eq_ok h
    rfl
  · obtain ⟨e, he, h⟩ := exists_of_bind_eq_ok h
    cases h
    exact checked_rule (List.forall_mem_singleton.2 (checked_parseSequentialEffect body he))
  · obtain ⟨e, he, h⟩ := exists_of_bind_eq_ok h
    cases h
    exact checked_rule (List.forall_mem_singleton.2 (checked_parseParallelEffect body he))
  · split at h
    · cases h
    · split at h
      · cases h
      · rename_i entries hentries
        have := Yaml.sizeOf_asMapping hentries
        split at h
        · cases h
        · rename_i args onDeny onAllow hbody
          cases h
          obtain ⟨hdeny, hallow⟩ := checked_extractPdpBody entries (by simp) (by simp) hbody
          rw [PolicyStep.Checked, stepToTopLevelEffect, Effect.Checked,
            Effect.validateParallelPurity_pdp_ok_iff]
          exact ⟨checked_stepsToTopLevelEffects hallow, checked_stepsToTopLevelEffects hdeny⟩
termination_by 4 * sizeOf body + 1

theorem checked_extractPdpBody (entries : List (Yaml × Yaml)) {source : String}
    {args args' : List (Yaml × Yaml)} {onDeny onAllow onDeny' onAllow' : List PolicyStep}
    (hdeny : ∀ step ∈ onDeny, step.Checked) (hallow : ∀ step ∈ onAllow, step.Checked)
    (h : extractPdpBody entries source (args, onDeny, onAllow) = .ok (args', onDeny', onAllow')) :
    (∀ step ∈ onDeny', step.Checked) ∧ ∀ step ∈ onAllow', step.Checked := by
  rw [extractPdpBody.eq_def] at h
  dsimp only at h
  split at h
  · cases h
    exact ⟨hdeny, hallow⟩
  · split at h
    · obtain ⟨reactions, hreactions, h⟩ := exists_of_bind_eq_ok h
      exact checked_extractPdpBody _ (checked_parseReactionList _ hreactions) hallow h
    · obtain ⟨reactions, hreactions, h⟩ := exists_of_bind_eq_ok h
      exact checked_extractPdpBody _ hdeny (checked_parseReactionList _ hreactions) h
    · exact checked_extractPdpBody _ hdeny hallow h
termination_by 4 * sizeOf entries

theorem checked_parseReactionList (v : Yaml) {source which : String} {steps : List PolicyStep}
    (h : parseReactionList v source which = .ok steps) : ∀ step ∈ steps, step.Checked := by
  rw [parseReactionList] at h
  split at h
  · cases h
  · rename_i items hitems
    have := Yaml.sizeOf_asSequence hitems
    exact checked_parseSteps items h
termination_by 4 * sizeOf v

theorem checked_parseSteps (items : List Yaml) {place : String} {index : ℕ}
    {steps : List PolicyStep} (h : parseSteps items place index = .ok steps) :
    ∀ step ∈ steps, step.Checked := by
  rw [parseSteps.eq_def] at h
  split at h
  · cases h
    exact List.forall_mem_nil _
  · obtain ⟨step, hstep, h⟩ := exists_of_bind_eq_ok h
    obtain ⟨rest, hrest, h⟩ := exists_of_bind_eq_ok h
    cases h
    exact List.forall_mem_cons.2 ⟨checked_parseStep _ hstep, checked_parseSteps _ hrest⟩
termination_by 4 * sizeOf items

end

/-- With any `parallel:` nodes made `sequential:`, accepted entries allow and deny alike, and what
is allowed is the same. -/
theorem parallel_refines_sequential {W V : Type} (env : Invokers W) (outside : W → V)
    (fixed : FixedAnswers) (h : env.Stateless outside fixed) (entries : List Yaml) (place : String)
    (steps : List PolicyStep) (hsteps : parseSteps entries place 0 = .ok steps) :
    (∀ es', Effect.SerializeTo (stepsToTopLevelEffects steps) es' → ∀ bag phase payload,
      Task.Matches outside (evaluateEffects env (stepsToTopLevelEffects steps) bag phase payload)
        (evaluateEffects env es' bag phase payload) EvaluationsAgree) ∧
    ∀ e ∈ stepsToTopLevelEffects steps, ∀ es, (Effect.parallel es).Within e →
      ∀ child ∈ es, ∀ node : Effect, node.Within child → ¬ node.Mutates := by
  have hchecked : ∀ e ∈ stepsToTopLevelEffects steps, e.Checked :=
    checked_stepsToTopLevelEffects (checked_parseSteps entries hsteps)
  refine ⟨fun es' hes bag phase payload => ?_, fun e he es hes child hchild node hnode => ?_⟩
  · exact matches_runPhase h hchecked hes _ _
  · have hbranches := hes.validateParallelPurity (hchecked e he)
    rw [Effect.validateParallelPurity, Effect.validateBranches_ok_iff] at hbranches
    have hpure := hnode.containsMutation (hbranches child hchild).1
    intro hmutates
    cases node <;> first | exact hmutates | cases hpure

end Documents

section Cases

local instance treeLibrary : Library := Library.ascii

local instance treeFloats : FloatText := ⟨fun value => toString (value.scaled / 2 ^ 1074)⟩

local instance treeTexts : PolicyText where
  debugYaml _ := ""
  debugEffect _ := ""
  displayNumber n := toString (n.asF64.scaled / 2 ^ 1074)
  isAlphanumeric := Char.isAlphanum

theorem parseEffectString_taint (source : String) :
    parseEffectString "taint(pii)" source = .ok (.taint "pii" [.session]) := by
  have htrim : TextScanning.trimChars "taint(pii)".toList = "taint(pii)".toList := by decide
  have hbare : tryBareAction "taint(pii)".toList = none := rfl
  have hdeny : tryParseDenyCall "taint(pii)".toList "taint(pii)" = .ok none := rfl
  have hfield : tryParseFieldOp "taint(pii)".toList "taint(pii)" = .ok none := rfl
  rw [parseEffectString, htrim, hbare]
  dsimp only
  rw [hdeny, hfield]
  rfl

def taintsInParallel : List Yaml :=
  [.mapping [(.string "parallel", .sequence [.string "taint(pii)", .string "taint(pii)"])]]

theorem parseSteps_taintsInParallel :
    parseSteps taintsInParallel "global.pre_invocation" 0 = .ok [.rule ⟨.always,
      [.parallel [.taint "pii" [.session], .taint "pii" [.session]]], "global.pre_invocation[0]"⟩] := by
  have hshorthand : isShorthandKey "parallel" = false := by decide
  have htrim : TextScanning.trim "parallel" = "parallel" := by decide
  have heffects : ∀ source, parseEffectValues [.string "taint(pii)", .string "taint(pii)"] source =
      .ok [.taint "pii" [.session], .taint "pii" [.session]] := by
    intro source
    simp [parseEffectValues, parseEffectValue, parseEffectString_taint, bind, Except.bind, pure,
      Except.pure]
  have hparallel : ∀ source, parseParallelEffect
      (.sequence [.string "taint(pii)", .string "taint(pii)"]) source =
        .ok (.parallel [.taint "pii" [.session], .taint "pii" [.session]]) := by
    intro source
    simp only [parseParallelEffect, groupItems, Yaml.asSequence, Yaml.untag, heffects, bind,
      Except.bind]
    rfl
  have hstep : ∀ source, parseStep
      (.mapping [(.string "parallel", .sequence [.string "taint(pii)", .string "taint(pii)"])]) source =
        .ok (.rule ⟨.always, [.parallel [.taint "pii" [.session], .taint "pii" [.session]]],
          source⟩) := by
    intro source
    simp [parseStep, parseStepMap, hasKey, Yaml.stringEntry, Yaml.asStr, Yaml.untag, parseKeyedStep,
      hshorthand, parseStructuredStep, htrim, hparallel, bind, Except.bind, pure, Except.pure]
  rw [taintsInParallel, parseSteps, hstep, parseSteps]
  rfl

def steadyAnswers : FixedAnswers where
  plugin _ _ _ := .ok (.ok ⟨.allow, [], none⟩)
  pdp _ _ _ := .answered (.ok ⟨.allow, []⟩)

theorem parallel_refines_sequential_taints :
    Task.Matches (fun _ => ())
      (evaluateEffects (pendingInvokers .allow) [.when .always
        [.parallel [.taint "pii" [.session], .taint "pii" [.session]]] "global.pre_invocation[0]"]
        .empty .pre ⟨.null, none, .default⟩)
      (evaluateEffects (pendingInvokers .allow) [.when .always
        [.sequential [.taint "pii" [.session], .taint "pii" [.session]]] "global.pre_invocation[0]"]
        .empty .pre ⟨.null, none, .default⟩) EvaluationsAgree := by
  have hsame : ∀ {α : Type} (x : Task Unit α), Task.Matches (fun _ => ()) x x Eq := by
    intro α x w w' _
    refine ⟨?_, rfl⟩
    change Task.Related Eq (x w).1 (x w).1
    cases (x w).1 <;> rfl
  refine (parallel_refines_sequential (pendingInvokers .allow) (fun _ => ()) steadyAnswers
    ⟨⟨fun _ _ _ _ => ⟨rfl, rfl⟩, fun _ _ _ _ => ⟨rfl, rfl⟩, fun _ _ => rfl⟩,
      fun _ _ _ => ⟨_, rfl⟩, fun _ => hsame _, fun _ _ => hsame _, fun _ _ => hsame _,
      fun _ _ => hsame _⟩
    taintsInParallel "global.pre_invocation" _ parseSteps_taintsInParallel).1 _ ?_ _ _ _
  simp [stepsToTopLevelEffects, stepToTopLevelEffect, Effect.SerializeTo, Effect.SerializesTo]

end Cases

end PraxisPolicy
