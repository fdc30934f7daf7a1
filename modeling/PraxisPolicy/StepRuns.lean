import Mathlib.Data.List.Basic

/-!
# Runs of a step function

The rules here turn what one step does into what every run does.
-/

namespace PraxisPolicy.StepRuns

variable {S A : Type*} (step : S → A → S)

def run (s : S) (actions : List A) : S := actions.foldl step s

@[simp] theorem run_cons (s : S) (a : A) (actions : List A) :
    run step s (a :: actions) = run step (step s a) actions := rfl

theorem run_append (s : S) (before after : List A) :
    run step s (before ++ after) = run step (run step s before) after :=
  List.foldl_append

/-- Every action meets the condition in the state it is performed in. -/
def AllSteps (ok : S → A → Prop) : S → List A → Prop
  | _, [] => True
  | s, a :: actions => ok s a ∧ AllSteps ok (step s a) actions

variable {step} {ok : S → A → Prop} {s : S} {I : S → Prop} {actions : List A} {R : S → S → Prop}

theorem AllSteps.of_append {before after : List A} (h : AllSteps step ok s (before ++ after)) :
    AllSteps step ok s before ∧ AllSteps step ok (run step s before) after := by
  induction before generalizing s with
  | nil => exact ⟨trivial, h⟩
  | cons a before ih =>
    obtain ⟨hbefore, hafter⟩ := ih h.2
    exact ⟨⟨h.1, hbefore⟩, hafter⟩

/-- What every such step relates, a run relates, if an invariant of these steps holds at its start. -/
theorem rel_of_allSteps (hrefl : ∀ s, R s s) (htrans : ∀ s₁ s₂ s₃, R s₁ s₂ → R s₂ s₃ → R s₁ s₃)
    (hstep : ∀ s a, I s → ok s a → R s (step s a) ∧ I (step s a)) (hs : I s)
    (h : AllSteps step ok s actions) :
    R s (run step s actions) ∧ I (run step s actions) := by
  induction actions generalizing s with
  | nil => exact ⟨hrefl s, hs⟩
  | cons a actions ih =>
    obtain ⟨hrel, hkept⟩ := hstep s a hs h.1
    obtain ⟨hrest, hend⟩ := ih hkept h.2
    exact ⟨htrans _ _ _ hrel hrest, hend⟩

theorem invariant_of_allSteps (hstep : ∀ s a, I s → ok s a → I (step s a)) (hs : I s)
    (h : AllSteps step ok s actions) : I (run step s actions) := by
  induction actions generalizing s with
  | nil => exact hs
  | cons a actions ih => exact ih (hstep s a hs h.1) h.2

theorem invariant_of_mem (hstep : ∀ s a, I s → a ∈ actions → I (step s a)) (hs : I s) :
    I (run step s actions) :=
  List.foldlRecOn actions step hs fun s hI a ha => hstep s a hI ha

theorem invariant_run (hstep : ∀ s a, I s → I (step s a)) (hs : I s) (actions : List A) :
    I (run step s actions) :=
  invariant_of_mem (fun s a hI _ => hstep s a hI) hs

theorem rel_run (hrefl : ∀ s, R s s)
    (htrans : ∀ s₁ s₂ s₃, R s₁ s₂ → R s₂ s₃ → R s₁ s₃) (hstep : ∀ s a, R s (step s a))
    (s : S) (actions : List A) : R s (run step s actions) :=
  invariant_run (I := R s) (fun t a h => htrans s t _ h (hstep t a)) (hrefl s) actions

theorem related_run {T : Type*} {step' : T → A → T} {R : S → T → Prop}
    (hstep : ∀ s t a, R s t → R (step s a) (step' t a)) {t : T} (h : R s t) (actions : List A) :
    R (run step s actions) (run step' t actions) := by
  induction actions generalizing s t with
  | nil => exact h
  | cons a actions ih => exact ih (hstep s t a h)

end PraxisPolicy.StepRuns
