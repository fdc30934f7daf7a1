import Mathlib.Data.List.Range
import Mathlib.Data.List.Perm.Basic

/-!
# Running branches concurrently

The first branch whose value is a deny aborts its siblings.  When tasks end, which of them are
still running at the abort and which exceed their budget is up to a `Schedule`.
-/

namespace PraxisPolicy

/-- The timeout is in milliseconds. -/
structure BranchConfig where
  timeoutPerBranch : Option ℕ
  shortCircuitOnDeny : Bool
  deriving DecidableEq, Repr

inductive BranchOutcome (T : Type) where
  | completed (value : T)
  | timedOut
  | aborted
  | panicked (payload : String)
  deriving DecidableEq, Repr

structure Schedule (n : ℕ) where
  /-- The order in which the tasks are joined. -/
  order : List ℕ
  /-- Every task is joined exactly once. -/
  joins : order.Perm (List.range n)
  /-- The tasks still running when their siblings are aborted. -/
  running : ℕ → Bool
  /-- The tasks that exceed the timeout of the configuration. -/
  late : ℕ → Bool

def joinInOrder (n : ℕ) : Schedule n where
  order := List.range n
  joins := .refl _
  running _ := false
  late _ := false

structure Joined (T : Type) where
  done : ℕ → Option (BranchOutcome T)
  aborted : Bool

section Run

variable {T : Type} (runs : List (Except String T)) (config : BranchConfig) (isDeny : T → Bool)
  (sched : Schedule runs.length)

def endOf (idx : ℕ) (run : Except String T) : BranchOutcome T :=
  if config.timeoutPerBranch.isSome && sched.late idx then .timedOut
  else match run with
    | .ok value => .completed value
    | .error payload => .panicked payload

def BranchOutcome.halts : BranchOutcome T → Bool
  | .completed value => isDeny value
  | _ => false

/-- A task cancelled by the abort leaves no outcome. -/
def joinNext (st : Joined T) (idx : ℕ) : Joined T :=
  if st.aborted && sched.running idx then st
  else match runs[idx]? with
    | none => st
    | some run =>
      let outcome := endOf runs config sched idx run
      { done := Function.update st.done idx (some outcome)
        aborted := st.aborted || (outcome.halts isDeny && config.shortCircuitOnDeny) }

/-- In input order; a branch without an outcome was aborted. -/
def runBranches : List (BranchOutcome T) :=
  let joined := sched.order.foldl (joinNext runs config isDeny sched) ⟨fun _ => none, false⟩
  (List.range runs.length).map fun i => (joined.done i).getD .aborted

end Run

section Spec

variable {T : Type} (runs : List (Except String T)) (config : BranchConfig) (isDeny : T → Bool)
  (sched : Schedule runs.length)

/-- Outcomes are those of the tasks, and only an abort after a deny leaves gaps, where tasks were
running. -/
structure JoinInvariant (tasks : List ℕ) (st : Joined T) : Prop where
  outcome_of : ∀ i o, st.done i = some o →
    ∃ run, runs[i]? = some run ∧ o = endOf runs config sched i run
  cause : st.aborted = true → config.shortCircuitOnDeny = true ∧
    ∃ i v, st.done i = some (.completed v) ∧ isDeny v = true
  gap : ∀ i ∈ tasks, i < runs.length → st.done i = none →
    st.aborted = true ∧ sched.running i = true
  fresh : ∀ i, i ∉ tasks → st.done i = none

variable {runs config isDeny sched} {o : BranchOutcome T} {tasks : List ℕ} {st : Joined T}
  {idx i : ℕ} {run : Except String T}

theorem BranchOutcome.halts_eq_true (h : o.halts isDeny = true) :
    ∃ v, o = .completed v ∧ isDeny v = true := by
  cases o with
  | completed v => exact ⟨v, rfl, h⟩
  | timedOut | aborted | panicked _ => cases h

private theorem JoinInvariant.skip (h : JoinInvariant runs config isDeny sched tasks st)
    (hgap : idx < runs.length → st.aborted = true ∧ sched.running idx = true) :
    JoinInvariant runs config isDeny sched (tasks ++ [idx]) st where
  outcome_of := h.outcome_of
  cause := h.cause
  gap i hi hlt hnone := by
    rcases List.mem_append.mp hi with hi | hi
    · exact h.gap i hi hlt hnone
    · rw [List.mem_singleton] at hi
      subst hi
      exact hgap hlt
  fresh i hi := h.fresh i fun hmem => hi (List.mem_append_left _ hmem)

private theorem JoinInvariant.record
    (h : JoinInvariant runs config isDeny sched tasks st) (hidx : idx ∉ tasks)
    (hrun : runs[idx]? = some run) :
    JoinInvariant runs config isDeny sched (tasks ++ [idx])
      { done := Function.update st.done idx (some (endOf runs config sched idx run))
        aborted := st.aborted ||
          ((endOf runs config sched idx run).halts isDeny && config.shortCircuitOnDeny) } where
  outcome_of i o ho := by
    by_cases hi : i = idx
    · subst hi
      simp only [Function.update_self, Option.some.injEq] at ho
      exact ⟨run, hrun, ho.symm⟩
    · simp only [Function.update_of_ne hi] at ho
      exact h.outcome_of i o ho
  cause habort := by
    rw [Bool.or_eq_true, Bool.and_eq_true] at habort
    rcases habort with habort | ⟨hhalts, hset⟩
    · obtain ⟨hset, i, v, hdone, hdeny⟩ := h.cause habort
      have hi : i ≠ idx := by
        rintro rfl
        rw [h.fresh i hidx] at hdone
        cases hdone
      exact ⟨hset, i, v, by simpa only [Function.update_of_ne hi] using hdone, hdeny⟩
    · obtain ⟨v, hv, hdeny⟩ := BranchOutcome.halts_eq_true hhalts
      exact ⟨hset, idx, v, by simp only [Function.update_self, hv], hdeny⟩
  gap i hi hlt hnone := by
    have hne : i ≠ idx := by
      rintro rfl
      simp only [Function.update_self] at hnone
      cases hnone
    simp only [Function.update_of_ne hne] at hnone
    have hmem : i ∈ tasks := by
      simpa [hne] using hi
    obtain ⟨habort, hrunning⟩ := h.gap i hmem hlt hnone
    exact ⟨by rw [habort, Bool.true_or], hrunning⟩
  fresh i hi := by
    have hne : i ≠ idx := fun heq => hi (by simp [heq])
    simp only [Function.update_of_ne hne]
    exact h.fresh i fun hmem => hi (List.mem_append_left _ hmem)

private theorem JoinInvariant.joinNext (h : JoinInvariant runs config isDeny sched tasks st)
    (hidx : idx ∉ tasks) :
    JoinInvariant runs config isDeny sched (tasks ++ [idx])
      (joinNext runs config isDeny sched st idx) := by
  rw [PraxisPolicy.joinNext]
  split
  · rename_i hcancel
    rw [Bool.and_eq_true] at hcancel
    exact h.skip fun _ => hcancel
  · cases hrun : runs[idx]? with
    | none => exact h.skip fun hlt => absurd hlt (by simpa using hrun)
    | some run => exact h.record hidx hrun

private theorem JoinInvariant.foldl {rest : List ℕ}
    (h : JoinInvariant runs config isDeny sched tasks st) (hnodup : (tasks ++ rest).Nodup) :
    JoinInvariant runs config isDeny sched (tasks ++ rest)
      (rest.foldl (PraxisPolicy.joinNext runs config isDeny sched) st) := by
  induction rest generalizing tasks st with
  | nil => simpa using h
  | cons idx rest ih =>
    have hidx : idx ∉ tasks := fun hmem =>
      (List.nodup_append.mp hnodup).2.2 idx hmem idx List.mem_cons_self rfl
    have hstep := ih (h.joinNext hidx) (by simpa using hnodup)
    simpa using hstep

@[simp] theorem length_runBranches :
    (runBranches runs config isDeny sched).length = runs.length := by
  simp [runBranches]

/-- An outcome is the branch's own, or a reported deny aborted the branch. -/
theorem runBranches_outcome (hrun : runs[i]? = some run) :
    (runBranches runs config isDeny sched)[i]? = some (endOf runs config sched i run) ∨
      (runBranches runs config isDeny sched)[i]? = some .aborted ∧ sched.running i = true ∧
        config.shortCircuitOnDeny = true ∧
        ∃ v, .completed v ∈ runBranches runs config isDeny sched ∧ isDeny v = true := by
  have hnodup : sched.order.Nodup := sched.joins.nodup_iff.mpr List.nodup_range
  have hstart : JoinInvariant runs config isDeny sched [] ⟨fun _ => none, false⟩ :=
    ⟨by simp, by simp, by simp, by simp⟩
  have hinv := hstart.foldl (by simpa using hnodup)
  have hget : ∀ j < runs.length, (runBranches runs config isDeny sched)[j]? =
      some (((sched.order.foldl (PraxisPolicy.joinNext runs config isDeny sched)
        ⟨fun _ => none, false⟩).done j).getD .aborted) := by
    intro j hj
    simp [runBranches, List.getElem?_range hj]
  generalize sched.order.foldl _ _ = st at hget hinv
  have hi : i < runs.length := (List.getElem?_eq_some_iff.mp hrun).1
  rw [hget i hi]
  cases hdone : st.done i with
  | none =>
    have hjoined : i ∈ sched.order := sched.joins.mem_iff.mpr (List.mem_range.mpr hi)
    obtain ⟨habort, hrunning⟩ := hinv.gap i hjoined hi hdone
    obtain ⟨hset, j, v, hdenied, hdeny⟩ := hinv.cause habort
    obtain ⟨run', hrun', -⟩ := hinv.outcome_of j _ hdenied
    have hmem := List.mem_of_getElem? (hget j (List.getElem?_eq_some_iff.mp hrun').1)
    rw [hdenied, Option.getD_some] at hmem
    exact .inr ⟨rfl, hrunning, hset, v, hmem, hdeny⟩
  | some own =>
    obtain ⟨run', hrun', hown⟩ := hinv.outcome_of i own hdone
    cases hrun.symm.trans hrun'
    exact .inl (by rw [Option.getD_some, hown])

theorem runBranches_getElem?_cases (h : (runBranches runs config isDeny sched)[i]? = some o) :
    o = .aborted ∨ ∃ run, runs[i]? = some run ∧ o = endOf runs config sched i run := by
  have hi : i < runs.length := by
    simpa using (List.getElem?_eq_some_iff.mp h).1
  have hrun := List.getElem?_eq_getElem hi
  have hcases : (runBranches runs config isDeny sched)[i]? = _ ∨ _ := runBranches_outcome hrun
  rcases hcases with hown | ⟨hcancelled, -⟩
  · exact .inr ⟨_, hrun, Option.some.inj (h.symm.trans hown)⟩
  · exact .inl (Option.some.inj (h.symm.trans hcancelled))

theorem runBranches_eq_endOf
    (h : ∀ v, .completed v ∈ runBranches runs config isDeny sched → isDeny v = false)
    (hrun : runs[i]? = some run) :
    (runBranches runs config isDeny sched)[i]? = some (endOf runs config sched i run) := by
  refine (runBranches_outcome hrun).resolve_right ?_
  rintro ⟨-, -, -, v, hmem, hdeny⟩
  rw [h v hmem] at hdeny
  cases hdeny

/-- No branch denied, timed out or panicked. -/
def BranchOutcome.Passed (isDeny : T → Bool) : BranchOutcome T → Prop
  | .completed value => isDeny value = false
  | .aborted => True
  | .timedOut | .panicked _ => False

theorem runBranches_completed (h : ∀ o ∈ runBranches runs config isDeny sched, o.Passed isDeny)
    (hi : i < runs.length) :
    ∃ v, runs[i]? = some (.ok v) ∧
      (runBranches runs config isDeny sched)[i]? = some (.completed v) := by
  have hown := runBranches_eq_endOf (fun v hv => h _ hv) (List.getElem?_eq_getElem hi)
  have hpassed := h _ (List.mem_of_getElem? hown)
  rw [endOf.eq_def] at hown hpassed
  split at hpassed
  · cases hpassed
  · rename_i hintime
    rw [if_neg hintime] at hown
    cases hrun : runs[i] with
    | error payload =>
      rw [hrun] at hpassed
      cases hpassed
    | ok v =>
      rw [hrun] at hown
      exact ⟨v, by rw [List.getElem?_eq_getElem hi, hrun], hown⟩

theorem ok_mem_of_completed_mem {v : T}
    (h : .completed v ∈ runBranches runs config isDeny sched) : .ok v ∈ runs := by
  obtain ⟨i, hget⟩ := List.mem_iff_getElem?.mp h
  rcases runBranches_getElem?_cases hget with hcancelled | ⟨run, hrun, ho⟩
  · cases hcancelled
  · rw [endOf.eq_def] at ho
    split at ho
    · cases ho
    · cases run with
      | error payload => cases ho
      | ok v' =>
        cases ho
        exact List.mem_of_getElem? hrun

private theorem exists_map_ok {runs : List (Except String T)}
    (h : ∀ r ∈ runs, ∃ v, r = .ok v) : ∃ values : List T, runs = values.map .ok := by
  induction runs with
  | nil => exact ⟨[], rfl⟩
  | cons r runs ih =>
    obtain ⟨v, rfl⟩ := h r List.mem_cons_self
    obtain ⟨values, rfl⟩ := ih fun r hr => h r (List.mem_cons_of_mem _ hr)
    exact ⟨v :: values, rfl⟩

theorem runBranches_eq_map_completed
    (h : ∀ o ∈ runBranches runs config isDeny sched, o.Passed isDeny) :
    ∃ values : List T, runs = values.map .ok ∧
      runBranches runs config isDeny sched = values.map .completed := by
  have hok : ∀ r ∈ runs, ∃ v, r = .ok v := by
    intro r hr
    obtain ⟨i, hi, hget⟩ := List.mem_iff_getElem.mp hr
    obtain ⟨v, hv, -⟩ := runBranches_completed h hi
    rw [List.getElem?_eq_getElem hi, hget, Option.some.injEq] at hv
    exact ⟨v, hv⟩
  obtain ⟨values, hvalues⟩ := exists_map_ok hok
  refine ⟨values, hvalues, List.ext_getElem? fun i => ?_⟩
  by_cases hi : i < runs.length
  · obtain ⟨v, hv, hout⟩ := runBranches_completed h hi
    have hval : values[i]? = some v := by
      rw [hvalues, List.getElem?_map, Option.map_eq_some_iff] at hv
      obtain ⟨v', hv', heq⟩ := hv
      rw [hv', Except.ok.inj heq]
    rw [hout, List.getElem?_map, hval, Option.map_some]
  · have hlen : values.length = runs.length := by rw [hvalues, List.length_map]
    rw [List.getElem?_eq_none (by simp [runBranches]; omega),
      List.getElem?_eq_none (by simp; omega)]

theorem runBranches_map_ok {values : List T} {sched : Schedule (values.map Except.ok).length}
    (hconfig : config.timeoutPerBranch = none) (h : ∀ v ∈ values, isDeny v = false) :
    runBranches (values.map .ok) config isDeny sched = values.map .completed := by
  have hpassed : ∀ o ∈ runBranches (values.map .ok) config isDeny sched, o.Passed isDeny := by
    intro o ho
    obtain ⟨i, hi⟩ := List.mem_iff_getElem?.1 ho
    rcases runBranches_getElem?_cases hi with rfl | ⟨run, hrun, rfl⟩
    · trivial
    · obtain ⟨v, hv, rfl⟩ := List.mem_map.1 (List.mem_of_getElem? hrun)
      simp only [endOf, hconfig, Option.isSome_none, Bool.false_and, Bool.false_eq_true, if_false]
      exact h v hv
  obtain ⟨values', hvalues, hrun⟩ := runBranches_eq_map_completed hpassed
  have hsame : values = values' := List.map_injective_iff.2 (fun _ _ => Except.ok.inj) hvalues
  rw [hrun, hsame]

end Spec

end PraxisPolicy
