import PraxisPolicy.CibaApprovals

/-!
# Attempts of an outbound request

A request is sent again while the policy calls the last failure worth repeating and the budget has
room for one more attempt.
-/

namespace PraxisPolicy

namespace RetryPolicy

variable (policy : RetryPolicy)

def withTotalBudget (budget : ℕ) : RetryPolicy := { policy with totalBudget := some budget }

def shouldRetry : HttpTransportError → Bool
  | .rejected _ | .invalidRequest _ | .responseTooLarge _ _ => false
  | other => policy.retryDelivered || !other.mayHaveReachedPeer

/-- `seq` is what the shared counter gave. The remainder by `ceiling + 1` panics for the largest
ceiling. -/
def backoffAfter (completedAttempts seq : ℕ) : Option ℕ :=
  let shift := min (completedAttempts - 1) 16
  let ceiling := min (durationSaturatingMul policy.initialBackoff (2 ^ shift)) policy.maxBackoff / 1000000
  if 2 ^ 64 ≤ ceiling then some policy.maxBackoff
  else if ceiling = 0 then some 0
  else if ceiling + 1 = 2 ^ 64 then none
  else
    let spread := seq * 0x9E3779B97F4A7C15 % 2 ^ 64 / 2 ^ 32
    some (spread % (ceiling + 1) * 1000000)

end RetryPolicy

/-- With the time spent when the budget is looked at, and what the shared counter gave. -/
structure AttemptEnd (R : Type) where
  outcome : Except HttpTransportError R
  spent : ℕ
  seq : ℕ

inductive RetryResult (R : Type) where
  | returned (outcome : Except HttpTransportError R)
  | panicked
  | waiting

section Loop

variable {R : Type} (policy : RetryPolicy) (timeout : ℕ)

/-- The sum of the durations may overflow. -/
def budgetCovers (delay spent : ℕ) : Option Bool :=
  match policy.totalBudget with
  | none => some true
  | some budget =>
    if durationMax < spent + delay + timeout then none
    else some (decide (spent + delay + timeout ≤ budget))

variable (ends : ℕ → Option (AttemptEnd R))

/-- `left` more attempts are allowed. One that does not end keeps the caller waiting. -/
def attemptsFrom : ℕ → ℕ → List (Option (AttemptEnd R)) × RetryResult R
  | left, attempt =>
    match ends attempt with
    | none => ([none], .waiting)
    | some last =>
      match last.outcome, left with
      | .ok response, _ => ([last], .returned (.ok response))
      | .error e, 0 => ([last], .returned (.error e))
      | .error e, left + 1 =>
        if !policy.shouldRetry e then ([last], .returned (.error e))
        else match (policy.backoffAfter attempt last.seq).bind
            fun delay => budgetCovers policy timeout delay last.spent with
          | none => ([last], .panicked)
          | some false => ([last], .returned (.error e))
          | some true =>
            let later := attemptsFrom left (attempt + 1)
            (last :: later.1, later.2)

def executeWithRetry : List (Option (AttemptEnd R)) × RetryResult R :=
  attemptsFrom policy timeout ends (policy.maxAttempts - 1) 1

end Loop

section Attempts

variable {R : Type} {policy : RetryPolicy} {timeout : ℕ} {ends : ℕ → Option (AttemptEnd R)}

def Repeatable (policy : RetryPolicy) (timeout attempt : ℕ) (made : Option (AttemptEnd R)) : Prop :=
  ∃ last e delay, made = some last ∧ last.outcome = .error e ∧ e.mayHaveReachedPeer = false ∧
    policy.backoffAfter attempt last.seq = some delay ∧
    ∀ budget ∈ policy.totalBudget, last.spent + delay + timeout ≤ budget

/-- What the last attempt came to, unless the wait behind it cannot be computed. -/
def EndsIn (policy : RetryPolicy) (timeout attempt : ℕ) (made : Option (AttemptEnd R)) :
    RetryResult R → Prop
  | .returned outcome => ∃ last, made = some last ∧ last.outcome = outcome
  | .waiting => made = none
  | .panicked => ∃ last e, made = some last ∧ last.outcome = .error e ∧
      (policy.backoffAfter attempt last.seq).bind
        (fun delay => budgetCovers policy timeout delay last.spent) = none

theorem mayHaveReachedPeer_of_shouldRetry (hpolicy : policy.retryDelivered = false)
    {e : HttpTransportError} (h : policy.shouldRetry e = true) : e.mayHaveReachedPeer = false := by
  cases e <;> simp_all [RetryPolicy.shouldRetry, HttpTransportError.mayHaveReachedPeer]

theorem budgetCovers_eq_true {delay spent : ℕ} (h : budgetCovers policy timeout delay spent = some true) :
    ∀ budget ∈ policy.totalBudget, spent + delay + timeout ≤ budget := by
  intro budget hbudget
  rw [Option.mem_def] at hbudget
  rw [budgetCovers, hbudget] at h
  dsimp only at h
  split_ifs at h
  simpa using h

theorem attemptsFrom_cases (hpolicy : policy.retryDelivered = false) (left attempt : ℕ) :
    ((attemptsFrom policy timeout ends left attempt).1 = [ends attempt] ∧
      EndsIn policy timeout attempt (ends attempt) (attemptsFrom policy timeout ends left attempt).2) ∨
    ∃ n, left = n + 1 ∧ Repeatable policy timeout attempt (ends attempt) ∧
      attemptsFrom policy timeout ends left attempt =
        (ends attempt :: (attemptsFrom policy timeout ends n (attempt + 1)).1,
          (attemptsFrom policy timeout ends n (attempt + 1)).2) := by
  cases hends : ends attempt with
  | none =>
    rw [attemptsFrom.eq_def]
    simp only [hends]
    exact .inl ⟨trivial, rfl⟩
  | some last =>
    cases hout : last.outcome with
    | ok response =>
      refine .inl ?_
      rw [attemptsFrom.eq_def]
      simp only [hends, hout]
      exact ⟨trivial, last, rfl, hout⟩
    | error e =>
      cases left with
      | zero =>
        refine .inl ?_
        rw [attemptsFrom.eq_def]
        simp only [hends, hout]
        exact ⟨trivial, last, rfl, hout⟩
      | succ n =>
        rw [attemptsFrom.eq_def]
        simp only [hends, hout]
        cases hretry : policy.shouldRetry e with
        | false => exact .inl ⟨rfl, last, rfl, hout⟩
        | true =>
          cases hwait : (policy.backoffAfter attempt last.seq).bind
              fun delay => budgetCovers policy timeout delay last.spent with
          | none => exact .inl ⟨rfl, last, e, rfl, hout, hwait⟩
          | some covered =>
            cases covered with
            | false => exact .inl ⟨rfl, last, rfl, hout⟩
            | true =>
              obtain ⟨delay, hdelay, hcovers⟩ := Option.bind_eq_some_iff.1 hwait
              exact .inr ⟨n, rfl, ⟨last, e, delay, rfl, hout,
                mayHaveReachedPeer_of_shouldRetry hpolicy hretry, hdelay,
                budgetCovers_eq_true hcovers⟩, rfl⟩

theorem attemptsFrom_spec (hpolicy : policy.retryDelivered = false) (left attempt : ℕ) :
    ∃ n ≤ left,
      (attemptsFrom policy timeout ends left attempt).1 = (List.range' attempt (n + 1)).map ends ∧
      (∀ k, attempt ≤ k → k < attempt + n → Repeatable policy timeout k (ends k)) ∧
      EndsIn policy timeout (attempt + n) (ends (attempt + n))
        (attemptsFrom policy timeout ends left attempt).2 := by
  induction left generalizing attempt with
  | zero =>
    rcases attemptsFrom_cases hpolicy 0 attempt with ⟨hmade, hend⟩ | ⟨n, hn, -⟩
    · exact ⟨0, le_rfl, by simpa using hmade, fun k _ _ => by omega, hend⟩
    · exact absurd hn.symm n.succ_ne_zero
  | succ left ih =>
    rcases attemptsFrom_cases hpolicy (left + 1) attempt with
      ⟨hmade, hend⟩ | ⟨n, hn, hrepeat, hrun⟩
    · exact ⟨0, Nat.zero_le _, by simpa using hmade, fun k _ _ => by omega, hend⟩
    · obtain rfl : left = n := by omega
      obtain ⟨m, hm, hmade, hbefore, hend⟩ := ih (attempt + 1)
      rw [Nat.add_right_comm] at hend
      rw [hrun]
      refine ⟨m + 1, by omega, ?_, fun k hk hkm => ?_, hend⟩
      · rw [List.range'_succ, List.map_cons, hmade]
      · rcases hk.eq_or_lt with rfl | hlt
        · exact hrepeat
        · exact hbefore k hlt (by omega)

theorem executeWithRetry_delivers_once (hpolicy : policy.retryDelivered = false) :
    ∃ n, n + 1 ≤ max 1 policy.maxAttempts ∧
      (executeWithRetry policy timeout ends).1 = (List.range' 1 (n + 1)).map ends ∧
      (∀ k, 1 ≤ k → k ≤ n → Repeatable policy timeout k (ends k)) ∧
      EndsIn policy timeout (n + 1) (ends (n + 1)) (executeWithRetry policy timeout ends).2 := by
  obtain ⟨n, hn, hmade, hbefore, hend⟩ := attemptsFrom_spec hpolicy (policy.maxAttempts - 1) 1
  rw [Nat.add_comm 1 n] at hend hbefore
  exact ⟨n, by omega, hmade, fun k hk hkn => hbefore k hk (by omega), hend⟩

def connectionRefused (_ : ℕ) : Option (AttemptEnd Unit) := some ⟨.error (.connect "refused"), 1, 0⟩

theorem executeWithRetry_delivers_once_refused :
    ∃ n < 3, (executeWithRetry .undeliveredOnly 0 connectionRefused).1 =
      (List.range' 1 (n + 1)).map connectionRefused := by
  obtain ⟨n, hn, hmade, -⟩ := executeWithRetry_delivers_once
    (show RetryPolicy.undeliveredOnly.retryDelivered = false from rfl)
  exact ⟨n, hn, hmade⟩

/-- The longest timeout leaves no sum to compare with the budget. -/
theorem executeWithRetry_panics : executeWithRetry (RetryPolicy.undeliveredOnly.withTotalBudget durationMax)
    durationMax connectionRefused = ([connectionRefused 1], .panicked) := rfl

end Attempts

end PraxisPolicy
