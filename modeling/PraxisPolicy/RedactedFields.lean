import PraxisPolicy.PipelineEvaluation

/-!
# Redaction hides the value

From an unconditional `redact` on, a pipeline without plugins depends on the bag and on its own
stages only.
-/

namespace PraxisPolicy

open JsonValues WorldTasks

def Stage.isPlugin : Stage → Bool
  | .plugin _ => true
  | _ => false

/-- The field is neither dropped nor refused. -/
def FieldOutcome.runsOn : FieldOutcome → Bool
  | .pass | .replace _ => true
  | .omit | .deny _ _ => false

section Stages

variable [Library] (bag : AttributeBag)

/-- It ends the pipeline or hands over to the next stages, as the value it gets decides. -/
theorem runStages_local {stage : Stage} (hlocal : stage.isPlugin = false) (idx : ℕ)
    (current : Json) :
    (∃ outcome, outcome.runsOn = false ∧
      ∀ (W : Type) (env : Invokers W) name phase stages replaced taints visits w,
        runStages env bag name phase (stage :: stages) idx current replaced taints visits w =
          (.ok ⟨outcome, taints, visits⟩, w)) ∨
    ∃ current' changed added,
      ∀ (W : Type) (env : Invokers W) name phase stages replaced taints visits w,
        runStages env bag name phase (stage :: stages) idx current replaced taints visits w =
          runStages env bag name phase stages (idx + 1) current' (replaced || changed)
            (taints ++ added) visits w := by
  rcases hstep : localStage bag current stage with
    _ | _ | value | ⟨taint, _ | value⟩ | _ | reason
  case' none => refine .inr ⟨current, false, [], ?_⟩
  case' some.keep => refine .inr ⟨current, false, [], ?_⟩
  case' some.change => refine .inr ⟨value, true, [], ?_⟩
  case' some.mark.none => refine .inr ⟨current, false, [taint], ?_⟩
  case' some.mark.some => refine .inr ⟨value, true, [taint], ?_⟩
  case' some.omit => refine .inl ⟨.omit, rfl, ?_⟩
  case' some.deny => refine .inl ⟨.deny reason idx, rfl, ?_⟩
  all_goals
    intro W env name phase stages replaced taints visits w
    conv_lhs => unfold runStages
    split
    · cases hlocal
    · rw [hstep]
      simp [pure]

theorem runStages_cons_cases {W : Type} (env : Invokers W) (name : String)
    (phase : DispatchPhase) (stage : Stage) (idx : ℕ) (current : Json) (replaced : Bool)
    (taints : List TaintEvent) (visits : List Visit) (w : W) :
    (∀ stages e w', runStages env bag name phase (stage :: stages) idx current replaced taints
      visits w = (.ok e, w') → e.outcome.runsOn = false) ∨
    ∃ current' replaced' taints' visits' w', ∀ stages,
      runStages env bag name phase (stage :: stages) idx current replaced taints visits w =
        runStages env bag name phase stages (idx + 1) current' replaced' taints' visits' w' := by
  cases hplugin : stage.isPlugin with
  | false =>
    rcases runStages_local bag hplugin idx current with
      ⟨outcome, hends, h⟩ | ⟨current', changed, added, h⟩
    · refine .inl fun stages e w' hrun => ?_
      rw [h] at hrun
      cases hrun
      exact hends
    · exact .inr ⟨current', _, _, visits, w, fun stages => h W env name phase stages _ _ _ w⟩
  | true =>
    cases stage with
    | plugin plugin =>
      rcases hanswer : env.plugin plugin bag (.field name current phase) w with
        ⟨panic | err | outcome, w₁⟩
      · refine .inl fun stages e w' hrun => ?_
        simp only [runStages, bind, hanswer] at hrun
        cases hrun
      · refine .inl fun stages e w' hrun => ?_
        simp only [runStages, bind, hanswer] at hrun
        cases hrun
        rfl
      · cases hdecision : outcome.decision with
        | deny reason source =>
          refine .inl fun stages e w' hrun => ?_
          simp only [runStages, bind, hanswer, hdecision] at hrun
          cases hrun
          rfl
        | allow =>
          cases hvalue : outcome.modifiedValue with
          | none =>
            refine .inr ⟨current, replaced, taints ++ outcome.taints,
              visits ++ [.plugin plugin (.ok outcome)], w₁, fun stages => ?_⟩
            simp only [runStages, bind, hanswer, hdecision, hvalue]
          | some value =>
            refine .inr ⟨value, true, taints ++ outcome.taints,
              visits ++ [.plugin plugin (.ok outcome)], w₁, fun stages => ?_⟩
            simp only [runStages, bind, hanswer, hdecision, hvalue]
    | _ => cases hplugin

theorem runStages_append {W : Type} {env : Invokers W} {name : String} {phase : DispatchPhase}
    (before after : List Stage) (idx : ℕ) (current : Json) (replaced : Bool)
    (taints : List TaintEvent) (visits : List Visit) (w w' : W) (e : PipelineEvaluation)
    (hbefore : runStages env bag name phase before idx current replaced taints visits w = (.ok e, w'))
    (hruns : e.outcome.runsOn = true) :
    ∃ current' replaced',
      runStages env bag name phase (before ++ after) idx current replaced taints visits w =
        runStages env bag name phase after (idx + before.length) current' replaced' e.taints
          e.visits w' := by
  induction before generalizing idx current replaced taints visits w with
  | nil =>
    rw [runStages] at hbefore
    cases hbefore
    exact ⟨current, replaced, rfl⟩
  | cons stage before ih =>
    rcases runStages_cons_cases bag env name phase stage idx current replaced taints visits
      w with hends | ⟨current₁, replaced₁, taints₁, visits₁, w₁, h⟩
    · rw [hends before e w' hbefore] at hruns
      cases hruns
    · rw [h before] at hbefore
      obtain ⟨current', replaced', hrest⟩ := ih _ _ _ _ _ _ hbefore
      refine ⟨current', replaced', ?_⟩
      rw [List.cons_append, h, hrest, List.length_cons, Nat.add_right_comm idx 1, Nat.add_assoc]

/-- Without a plugin, a pipeline is a function of bag and value, and a replaced value is not passed
on as it came. -/
theorem runStages_without_plugins (stages : List Stage)
    (hlocal : ∀ stage ∈ stages, stage.isPlugin = false) (idx : ℕ) (current : Json)
    (replaced : Bool) :
    ∃ outcome added, (replaced = true → outcome ≠ .pass) ∧
      ∀ (W : Type) (env : Invokers W) name phase taints visits w,
        runStages env bag name phase stages idx current replaced taints visits w =
          (.ok ⟨outcome, taints ++ added, visits⟩, w) := by
  induction stages generalizing idx current replaced with
  | nil =>
    refine ⟨if replaced then .replace current else .pass, [], ?_, ?_⟩
    · rintro rfl
      nofun
    · intro W env name phase taints visits w
      rw [runStages, List.append_nil]
      rfl
  | cons stage stages ih =>
    rcases runStages_local bag (hlocal stage (by simp)) idx current with
      ⟨outcome, hends, h⟩ | ⟨current', changed, added, h⟩
    · refine ⟨outcome, [], fun _ => ?_, fun W env name phase taints visits w => ?_⟩
      · rintro rfl
        cases hends
      · rw [h, List.append_nil]
    · obtain ⟨outcome, more, hkept, hrest⟩ :=
        ih (fun stage h => hlocal stage (List.mem_cons_of_mem _ h)) (idx + 1) current'
          (replaced || changed)
      refine ⟨outcome, added ++ more, fun hreplaced => hkept (by rw [hreplaced]; rfl),
        fun W env name phase taints visits w => ?_⟩
      rw [h, hrest, List.append_assoc]

/-- After an unconditional `redact`, with no plugin behind it, outcome and taints are the same for
every value that gets there, whatever the plugins before it answer, and the value is not passed on.
-/
theorem redact_hides_value (before after : List Stage)
    (hlocal : ∀ stage ∈ after, stage.isPlugin = false) :
    ∃ outcome added, outcome ≠ .pass ∧
      ∀ (W : Type) (env : Invokers W) name phase value w e w',
        evaluatePipeline env before value bag name phase w = (.ok e, w') →
          e.outcome.runsOn = true →
          evaluatePipeline env (before ++ .redact none :: after) value bag name phase w =
            (.ok ⟨outcome, e.taints ++ added, e.visits⟩, w') := by
  obtain ⟨outcome, added, hkept, hafter⟩ :=
    runStages_without_plugins bag after hlocal (before.length + 1) redactionMarker true
  refine ⟨outcome, added, hkept rfl, fun W env name phase value w e w' hbefore hruns => ?_⟩
  obtain ⟨current, replaced, h⟩ :=
    runStages_append bag before (.redact none :: after) 0 value false [] [] w w' e hbefore hruns
  rw [evaluatePipeline, h, Nat.zero_add]
  exact hafter W env name phase e.taints e.visits w'

end Stages

section Instances

local instance redactLibrary : Library := Library.ascii

theorem redact_hides_names :
    (∀ stage ∈ [Stage.mask 4, .taint "pii" [.session]], stage.isPlugin = false) ∧
    ∃ outcome added, outcome ≠ .pass ∧ ∀ text ∈ ["alice", "bob"],
      evaluatePipeline (pendingInvokers .allow)
        ([.type .str] ++ .redact none :: [.mask 4, .taint "pii" [.session]]) (.string text) .empty
        "user.name" .pre () = (.ok ⟨outcome, added, []⟩, ()) := by
  have hlocal : ∀ stage ∈ [Stage.mask 4, .taint "pii" [.session]], stage.isPlugin = false := by
    decide
  obtain ⟨outcome, added, hkept, h⟩ := redact_hides_value .empty [.type .str] _ hlocal
  refine ⟨hlocal, outcome, added, hkept, fun text _ => ?_⟩
  exact h Unit (pendingInvokers .allow) "user.name" .pre (.string text) () ⟨.pass, [], []⟩ () rfl rfl

end Instances

end PraxisPolicy
