import PraxisPolicy.BranchScheduling
import PraxisPolicy.HashMaps

/-!
# Every result in its branch's place

A task that panicked is known by its id only, which the join loop looks up in the table it filled
while spawning.
-/

namespace PraxisPolicy

open HashMaps

/-- What `join_next_with_id` hands over. -/
inductive Handover (Id T : Type) where
  | returned (idx : ℕ) (outcome : BranchOutcome T)
  | panicked (id : Id) (payload : String)
  | cancelled (id : Id)

variable {T Id : Type} [DecidableEq Id] (runs : List (Except String T)) (config : BranchConfig)
  (isDeny : T → Bool) (sched : Schedule runs.length) (ids : ℕ ↪ Id)

def idToIdx (n : ℕ) : HashMap Id ℕ := writeAll ∅ ((List.range n).map fun idx => (ids idx, idx))

/-- How the task of a branch leaves the join set. -/
def handover (aborted : Bool) (idx : ℕ) (run : Except String T) : Handover Id T :=
  if aborted && sched.running idx then .cancelled (ids idx)
  else if config.timeoutPerBranch.isSome && sched.late idx then .returned idx .timedOut
  else match run with
    | .ok value => .returned idx (.completed value)
    | .error payload => .panicked (ids idx) payload

def receive (table : HashMap Id ℕ) (st : Joined T) : Handover Id T → Joined T
  | .returned idx outcome =>
    { done := Function.update st.done idx (some outcome)
      aborted := st.aborted || (outcome.halts isDeny && config.shortCircuitOnDeny) }
  | .panicked id payload =>
    match table.lookup id with
    | some idx => { st with done := Function.update st.done idx (some (.panicked payload)) }
    | none => st
  | .cancelled _ => st

def joinTask (st : Joined T) (idx : ℕ) : Joined T :=
  match runs[idx]? with
  | some run =>
    receive config isDeny (idToIdx ids runs.length) st
      (handover runs config sched ids st.aborted idx run)
  | none => st

def runTasks : List (BranchOutcome T) :=
  let joined := sched.order.foldl (joinTask runs config isDeny sched ids) ⟨fun _ => none, false⟩
  (List.range runs.length).map fun i => (joined.done i).getD .aborted

theorem lookup_idToIdx {n idx : ℕ} (h : idx < n) : (idToIdx ids n).lookup (ids idx) = some idx := by
  have hnodup : (((List.range n).map fun idx => (ids idx, idx)).map Prod.fst).Nodup := by
    rw [List.map_map]
    exact List.nodup_range.map ids.injective
  have hmem : (ids idx, idx) ∈ (List.range n).map fun idx => (ids idx, idx) :=
    List.mem_map.2 ⟨idx, List.mem_range.2 h, rfl⟩
  rw [idToIdx, lookup_writeAll, lastWrite_of_nodup hnodup hmem, Option.some_or]

theorem joinTask_eq (st : Joined T) {idx : ℕ} (h : idx < runs.length) :
    joinTask runs config isDeny sched ids st idx = joinNext runs config isDeny sched st idx := by
  rw [joinTask, joinNext, List.getElem?_eq_getElem h]
  simp only [handover]
  by_cases hcancel : (st.aborted && sched.running idx) = true
  · rw [if_pos hcancel, if_pos hcancel]
    rfl
  · rw [if_neg hcancel, if_neg hcancel]
    simp only [endOf]
    by_cases hlate : (config.timeoutPerBranch.isSome && sched.late idx) = true
    · rw [if_pos hlate, if_pos hlate]
      rfl
    · rw [if_neg hlate, if_neg hlate]
      cases runs[idx] with
      | ok value => rfl
      | error payload =>
        simp only [receive, lookup_idToIdx ids h, BranchOutcome.halts, Bool.false_and, Bool.or_false]

theorem runTasks_eq :
    runTasks runs config isDeny sched ids = runBranches runs config isDeny sched := by
  have hjoined := List.foldl_ext (joinTask runs config isDeny sched ids)
    (joinNext runs config isDeny sched) ⟨fun _ => none, false⟩ (l := sched.order)
    fun st idx hidx => joinTask_eq runs config isDeny sched ids st
      (List.mem_range.1 (sched.joins.mem_iff.1 hidx))
  rw [runTasks, runBranches, hjoined]

/-- Each branch has one outcome, in its place: its own, or aborted, if a reported deny stopped it
while it was running. -/
theorem runTasks_outcomes (config : BranchConfig) (sched : Schedule runs.length) :
    let outcomes := runTasks runs config isDeny sched ids
    outcomes.length = runs.length ∧
    (∀ i run, runs[i]? = some run → sched.running i = false →
      outcomes[i]? = some (endOf runs config sched i run)) ∧
    (∀ i : ℕ, outcomes[i]? = some .aborted → config.shortCircuitOnDeny = true ∧
      ∃ v, .completed v ∈ outcomes ∧ isDeny v = true) ∧
    ∀ (i : ℕ) o, outcomes[i]? = some o → o ≠ .aborted →
      ∃ run, runs[i]? = some run ∧ o = endOf runs config sched i run := by
  rw [runTasks_eq]
  refine ⟨length_runBranches, fun i run hrun hended => ?_, fun i habort => ?_, fun i o ho hne => ?_⟩
  · refine (runBranches_outcome hrun).resolve_right fun hcancelled => ?_
    exact Bool.false_ne_true (hended.symm.trans hcancelled.2.1)
  · obtain ⟨run, hrun⟩ : ∃ run, runs[i]? = some run := by
      have hi := (List.getElem?_eq_some_iff.1 habort).1
      rw [length_runBranches] at hi
      exact ⟨_, List.getElem?_eq_getElem hi⟩
    rcases runBranches_outcome hrun with hown | ⟨-, -, hcause⟩
    · have hend := Option.some.inj (habort.symm.trans hown)
      unfold endOf at hend
      split_ifs at hend
      cases run <;> cases hend
    · exact hcause
  · exact (runBranches_getElem?_cases ho).resolve_left hne

end PraxisPolicy
