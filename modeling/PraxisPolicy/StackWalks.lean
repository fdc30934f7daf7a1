import Mathlib.Algebra.GroupWithZero.Nat
import Mathlib.Algebra.Order.BigOperators.Group.List
import Mathlib.Logic.Function.Iterate

/-!
# Walks with an explicit stack

A loop pops a node, returns at it if it is looked for, and pushes its children otherwise.  A weight
that a node has over all its children bounds both the turns of the loop and its stack.
-/

namespace PraxisPolicy.StackWalks

variable {α : Type*}

inductive Walk (α : Type*) where
  | running (stack : List α)
  | returned (found : Bool)

section Turns

variable (children : α → List α) (stop : α → Bool)

/-- The top of the stack is its head, and the last child ends on top. -/
def turn : Walk α → Walk α
  | .running [] => .returned false
  | .running (node :: stack) =>
    if stop node then .returned true else .running ((children node).reverse ++ stack)
  | .returned found => .returned found

variable {children stop}

theorem turn_eq_running {walk : Walk α} {later : List α}
    (h : turn children stop walk = .running later) :
    ∃ node stack, walk = .running (node :: stack) ∧ later = (children node).reverse ++ stack := by
  unfold turn at h
  split at h
  · cases h
  · next node stack =>
    split_ifs at h
    cases h
    exact ⟨node, stack, rfl, rfl⟩
  · cases h

theorem invariant_stack {I : List α → Prop}
    (hpush : ∀ node stack, I (node :: stack) → I ((children node).reverse ++ stack))
    {stack : List α} (h : I stack) (n : ℕ) {later : List α}
    (hrun : (turn children stop)^[n] (.running stack) = .running later) : I later := by
  induction n generalizing later with
  | zero =>
    cases hrun
    exact h
  | succ n ih =>
    rw [Function.iterate_succ_apply'] at hrun
    obtain ⟨node, rest, hbefore, rfl⟩ := turn_eq_running hrun
    exact hpush node rest (ih hbefore)

end Turns

section Weights

variable {children : α → List α} {stop : α → Bool} {weight : α → ℕ}

def load (weight : α → ℕ) (stack : List α) : ℕ := (stack.map weight).sum

theorem load_push (hweight : ∀ a, load weight (children a) < weight a) (node : α)
    (stack : List α) :
    load weight ((children node).reverse ++ stack) < load weight (node :: stack) := by
  have hnode := hweight node
  simp only [load, List.map_append, List.map_reverse, List.sum_append, List.sum_reverse,
    List.map_cons, List.sum_cons] at hnode ⊢
  omega

theorem length_stack_le (hweight : ∀ a, load weight (children a) < weight a) {n : ℕ}
    {stack later : List α} (hrun : (turn children stop)^[n] (.running stack) = .running later) :
    later.length ≤ load weight stack := by
  have hkept : load weight later ≤ load weight stack :=
    invariant_stack (I := fun later => load weight later ≤ load weight stack)
      (fun node rest h => (load_push hweight node rest).le.trans h) le_rfl n hrun
  rw [← List.length_map weight]
  refine le_trans (List.length_le_sum_of_one_le _ fun w hw => ?_) hkept
  obtain ⟨a, -, rfl⟩ := List.mem_map.1 hw
  exact Nat.one_le_of_lt (hweight a)

/-- It returns within as many turns as the stack weighs, and says whether there is a node to stop
at. -/
theorem walk_returns (hweight : ∀ a, load weight (children a) < weight a) {hits : α → Prop}
    (hhits : ∀ a, hits a ↔ stop a = true ∨ ∃ b ∈ children a, hits b) (stack : List α) :
    ∃ n ≤ load weight stack + 1, ∃ found,
      (turn children stop)^[n] (.running stack) = .returned found ∧
        (found = true ↔ ∃ a ∈ stack, hits a) := by
  induction hload : load weight stack using Nat.strong_induction_on generalizing stack with
  | _ total ih =>
    cases stack with
    | nil => exact ⟨1, by omega, false, rfl, by simp⟩
    | cons node stack =>
      have hlt := load_push hweight node stack
      cases hstop : stop node with
      | true =>
        have hnode : hits node := (hhits node).2 (.inl hstop)
        refine ⟨1, by omega, true, ?_, by simp [hnode]⟩
        simp [turn, hstop]
      | false =>
        rw [hload] at hlt
        obtain ⟨n, hn, found, hrun, hfound⟩ := ih _ hlt _ rfl
        have hnode : hits node ↔ ∃ b ∈ children node, hits b := by simp [hhits node, hstop]
        refine ⟨n + 1, by omega, found, ?_, ?_⟩
        · rw [Function.iterate_succ_apply, turn, if_neg (by simp [hstop]), hrun]
        · rw [hfound, List.exists_mem_cons_iff, hnode]
          simp [or_and_right, exists_or]

end Weights

end PraxisPolicy.StackWalks
