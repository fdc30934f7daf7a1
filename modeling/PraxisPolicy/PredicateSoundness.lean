import PraxisPolicy.PredicateEvaluation

/-!
# Soundness of three-valued evaluation

An assignment chooses a boolean for each occurrence of an undecided comparison.  A value the
evaluator returns is the value under every assignment.
-/

namespace PraxisPolicy

open KleeneLogic

section Soundness

variable [Library]

/-- A position is the path back to the root. -/
abbrev Assignment := List ℕ → Bool

section TwoValued

variable (ρ : Assignment) (bag : AttributeBag)

mutual

/-- `ρ` stands in for undecided comparisons. -/
def evalUnder : Expression → List ℕ → Bool
  | .condition c, pos =>
    match evalCondition c bag with
    | .ok b => b
    | .error _ => ρ pos
  | .and parts, pos => (evalEachUnder parts pos 0).all id
  | .or parts, pos => (evalEachUnder parts pos 0).any id
  | .not inner, pos => !evalUnder inner (0 :: pos)
  | .always, _ => true

def evalEachUnder : List Expression → List ℕ → ℕ → List Bool
  | [], _, _ => []
  | e :: es, pos, i => evalUnder e (i :: pos) :: evalEachUnder es pos (i + 1)

end

/-- Rule number `i` is at position `[i]`. -/
def evaluateRulesUnder : List Rule → ℕ → Decision
  | [], _ => .allow
  | rule :: rules, i =>
    if evalUnder ρ bag rule.condition [i] then
      match firstDeny rule.source rule.effects with
      | some deny => deny
      | none => evaluateRulesUnder rules (i + 1)
    else evaluateRulesUnder rules (i + 1)

variable {ρ bag}

private theorem forall₂_admits_evalEachUnder {parts : List Expression}
    (h : ∀ e ∈ parts, ∀ pos, Admits (truth bag e) (evalUnder ρ bag e pos))
    (pos : List ℕ) (i : ℕ) :
    List.Forall₂ Admits (parts.map (truth bag)) (evalEachUnder ρ bag parts pos i) := by
  induction parts generalizing i with
  | nil => simp [evalEachUnder]
  | cons e es ih =>
    have hhead := h e List.mem_cons_self (i :: pos)
    have htail := ih (fun e' he' => h e' (List.mem_cons_of_mem _ he')) (i + 1)
    rw [evalEachUnder, List.map_cons]
    exact .cons hhead htail

theorem admits_evalUnder (e : Expression) (pos : List ℕ) :
    Admits (truth bag e) (evalUnder ρ bag e pos) := by
  induction e using Expression.induction generalizing pos with
  | condition c =>
    simp only [truth, evalExpression, evalUnder]
    cases evalCondition c bag <;> simp [Admits]
  | and parts ih =>
    rw [truth_and, evalUnder]
    exact Admits.all (forall₂_admits_evalEachUnder ih pos 0)
  | or parts ih =>
    rw [truth_or, evalUnder]
    exact Admits.any (forall₂_admits_evalEachUnder ih pos 0)
  | not inner ih =>
    rw [truth_not, evalUnder]
    exact (ih (0 :: pos)).not
  | always =>
    simp [truth, evalExpression, evalUnder, Admits]

theorem evalUnder_of_evalExpression_ok {e : Expression} {b : Bool}
    (h : evalExpression bag e = .ok b) (pos : List ℕ) : evalUnder ρ bag e pos = b :=
  admits_evalUnder e pos b (settled_eq_some_iff.mpr h)

theorem evaluateRulesUnder_of_allow {rules : List Rule}
    (h : evaluateRules rules bag = .allow) (i : ℕ) :
    evaluateRulesUnder ρ bag rules i = .allow := by
  induction rules generalizing i with
  | nil => rfl
  | cons rule rules ih =>
    rw [evaluateRules] at h
    cases hc : evalExpression bag rule.condition with
    | error err => simp [hc] at h
    | ok b =>
      have hunder := evalUnder_of_evalExpression_ok (ρ := ρ) hc [i]
      rw [evaluateRulesUnder, hunder]
      cases b with
      | false =>
        simp only [hc] at h
        simpa using ih h (i + 1)
      | true =>
        simp only [hc] at h
        cases hd : firstDeny rule.source rule.effects with
        | some deny => simpa [hd] using h
        | none =>
          simp only [hd] at h
          simpa [hd] using ih h (i + 1)

end TwoValued

/-- The operands of some `and` and `or` nodes are permuted. -/
inductive Reordered : Expression → Expression → Prop
  | refl (e : Expression) : Reordered e e
  | trans {e e' e'' : Expression} (h : Reordered e e') (h' : Reordered e' e'') : Reordered e e''
  | permAnd {parts parts' : List Expression} (h : parts.Perm parts') :
      Reordered (.and parts) (.and parts')
  | permOr {parts parts' : List Expression} (h : parts.Perm parts') :
      Reordered (.or parts) (.or parts')
  | inAnd (before after : List Expression) {e e' : Expression} (h : Reordered e e') :
      Reordered (.and (before ++ e :: after)) (.and (before ++ e' :: after))
  | inOr (before after : List Expression) {e e' : Expression} (h : Reordered e e') :
      Reordered (.or (before ++ e :: after)) (.or (before ++ e' :: after))
  | inNot {e e' : Expression} (h : Reordered e e') : Reordered (.not e) (.not e')

theorem Reordered.truth_eq {e e' : Expression} (h : Reordered e e') (bag : AttributeBag) :
    truth bag e = truth bag e' := by
  induction h with
  | refl e => rfl
  | trans _ _ ih ih' => exact ih.trans ih'
  | permAnd hp =>
    rw [truth_and, truth_and]
    exact all_congr fun _ => (hp.map _).mem_iff
  | permOr hp =>
    rw [truth_or, truth_or]
    exact any_congr fun _ => (hp.map _).mem_iff
  | inAnd before after _ ih => simp only [truth_and, List.map_append, List.map_cons, ih]
  | inOr before after _ ih => simp only [truth_or, List.map_append, List.map_cons, ih]
  | inNot _ ih => rw [truth_not, truth_not, ih]

/-- What the evaluator settles holds however the undecided comparisons turn out and in whatever
order the operands stand. -/
theorem three_valued_evaluation_sound :
    (∀ (rules : List Rule) (bag : AttributeBag), evaluateRules rules bag = .allow →
      ∀ ρ : Assignment, evaluateRulesUnder ρ bag rules 0 = .allow) ∧
    (∀ (e : Expression) (bag : AttributeBag) (b : Bool), evalExpression bag e = .ok b →
      ∀ (ρ : Assignment) (pos : List ℕ), evalUnder ρ bag e pos = b) ∧
    (∀ (e e' : Expression) (bag : AttributeBag), Reordered e e' →
      settled (evalExpression bag e) = settled (evalExpression bag e')) := by
  refine ⟨fun rules bag h ρ => ?_, fun e bag b h ρ pos => ?_, fun e e' bag h => ?_⟩
  · exact evaluateRulesUnder_of_allow h 0
  · exact evalUnder_of_evalExpression_ok h pos
  · exact h.truth_eq bag

end Soundness

def largeAmount : Expression := .condition (.comparison "args.amount" .gt (.int 10000))

def flagged : Expression := .condition (.isTrue "args.flagged")

def denyFlaggedLargeAmount : Rule where
  condition := .and [largeAmount, flagged]
  effects := [.deny none none]
  source := "rule[0]"

def wordAmountBag : AttributeBag := AttributeBag.empty.set "args.amount" (.string "many")

theorem three_valued_evaluation_sound_word_amount :
    @evalExpression Library.ascii wordAmountBag largeAmount = .error ⟨"args.amount"⟩ ∧
    (∀ ρ, @evaluateRulesUnder Library.ascii ρ wordAmountBag [denyFlaggedLargeAmount] 0 = .allow) ∧
    (∀ ρ pos, @evalUnder Library.ascii ρ wordAmountBag (.and [largeAmount, flagged]) pos = false) ∧
    settled (@evalExpression Library.ascii wordAmountBag (.and [largeAmount, flagged])) =
      settled (@evalExpression Library.ascii wordAmountBag (.and [flagged, largeAmount])) := by
  have hsound := @three_valued_evaluation_sound Library.ascii
  refine ⟨rfl, fun ρ => hsound.1 _ _ rfl ρ, fun ρ pos => hsound.2.1 _ _ _ rfl ρ pos, ?_⟩
  exact hsound.2.2 _ _ _ (.permAnd (.swap flagged largeAmount []))

end PraxisPolicy
