import PraxisPolicy.HashMaps
import PraxisPolicy.StepRuns

/-!
# Pending debits of a quota

A report that fails or is dropped leaves its amount pending, and the next admission reports it
again.  Other calls run between a report and its answer.
-/

namespace PraxisPolicy

open HashMaps StepRuns

section Debits

structure PendingDebit where
  delta : ℕ
  flushing : Bool
  /-- Each takes room, so the counter cannot run over. -/
  activeReports : ℕ
  deriving DecidableEq

def PendingDebit.default : PendingDebit := ⟨0, false, 0⟩

inductive FlushOutcome where
  | proceed
  | deny
  deriving DecidableEq

abbrev PendingDebits := HashMap String PendingDebit

def entryOrDefault (pending : PendingDebits) (principal : String) : PendingDebit :=
  (pending.lookup principal).getD .default

def u64SaturatingAdd (a b : ℕ) : ℕ := min (a + b) (2 ^ 64 - 1)

/-- An entry that says nothing is dropped. -/
def PendingDebit.isIdle (p : PendingDebit) : Bool :=
  decide (p.delta = 0) && !p.flushing && decide (p.activeReports = 0)

def debitBegin (pending : PendingDebits) (principal : String) : PendingDebits :=
  let entry := entryOrDefault pending principal
  pending.insert principal { entry with activeReports := entry.activeReports + 1 }

def PendingDebit.finished (p : PendingDebit) (delta : ℕ) (confirmed : Bool) : PendingDebit :=
  { p with
    activeReports := p.activeReports - 1
    delta := if confirmed then p.delta else u64SaturatingAdd p.delta delta }

def debitFinish (pending : PendingDebits) (principal : String) (delta : ℕ) (confirmed : Bool) :
    PendingDebits :=
  let p := (entryOrDefault pending principal).finished delta confirmed
  if p.isIdle then pending.erase principal else pending.insert principal p

/-- It answers at once or reports an amount. -/
def flushBegin (pending : PendingDebits) (principal : String) :
    FlushOutcome ⊕ ℕ × PendingDebits :=
  match pending.lookup principal with
  | none => .inl .proceed
  | some p =>
    if p.flushing || decide (p.activeReports ≠ 0) then .inl .deny
    else if p.delta = 0 then .inl .proceed
    else .inr (p.delta, pending.insert principal { p with flushing := true })

def PendingDebit.settled (p : PendingDebit) (attempted : ℕ) (acknowledged : Bool) : PendingDebit :=
  { p with
    flushing := false
    delta := if acknowledged then p.delta - attempted else p.delta }

def flushSettle (pending : PendingDebits) (principal : String) (attempted : ℕ)
    (acknowledged : Bool) : FlushOutcome × PendingDebits :=
  match pending.lookup principal with
  | some p =>
    let p := p.settled attempted acknowledged
    let outcome : FlushOutcome :=
      if acknowledged && decide (p.delta = 0) && decide (p.activeReports = 0) then .proceed
      else .deny
    (outcome, if p.isIdle then pending.erase principal else pending.insert principal p)
  | none => (if acknowledged then .proceed else .deny, pending)

/-- `FlushClaim::drop`, when the flush was not settled. -/
def flushDrop (pending : PendingDebits) (principal : String) : PendingDebits :=
  match pending.lookup principal with
  | some p => pending.insert principal { p with flushing := false }
  | none => pending

variable {p : PendingDebit}

theorem PendingDebit.eq_default_of_isIdle (h : p.isIdle = true) :
    p = .default := by
  obtain ⟨delta, flushing, activeReports⟩ := p
  simp only [isIdle, Bool.and_eq_true, decide_eq_true_eq, Bool.not_eq_true'] at h
  rw [h.1.1, h.1.2, h.2]
  rfl

theorem entryOrDefault_insert (pending : PendingDebits) (principal q : String) (p : PendingDebit) :
    entryOrDefault (pending.insert principal p) q =
      if q = principal then p else entryOrDefault pending q := by
  rw [entryOrDefault, lookup_insert_eq]
  split_ifs <;> rfl

theorem entryOrDefault_replace (pending : PendingDebits) (principal q : String)
    (p : PendingDebit) :
    entryOrDefault (if p.isIdle then pending.erase principal else pending.insert principal p) q =
      if q = principal then p else entryOrDefault pending q := by
  split_ifs with hidle hq hq
  · rw [hq, entryOrDefault, Finmap.lookup_erase, PendingDebit.eq_default_of_isIdle hidle]
    rfl
  · rw [entryOrDefault, Finmap.lookup_erase_ne hq, entryOrDefault]
  · rw [entryOrDefault_insert, if_pos hq]
  · rw [entryOrDefault_insert, if_neg hq]

variable {pending : PendingDebits} {principal : String}

theorem entryOrDefault_eq (h : pending.lookup principal = some p) :
    entryOrDefault pending principal = p := by
  rw [entryOrDefault, h, Option.getD_some]

theorem entryOrDefault_eq_default (h : pending.lookup principal = none) :
    entryOrDefault pending principal = .default := by
  rw [entryOrDefault, h, Option.getD_none]

theorem entryOrDefault_flushSettle (pending : PendingDebits) (principal q : String)
    (attempted : ℕ) (acknowledged : Bool) :
    entryOrDefault (flushSettle pending principal attempted acknowledged).2 q =
      if q = principal then (entryOrDefault pending principal).settled attempted acknowledged
      else entryOrDefault pending q := by
  cases hentry : pending.lookup principal with
  | some p =>
    simp only [flushSettle, hentry, entryOrDefault_eq hentry, entryOrDefault_replace]
  | none =>
    have hsettled : PendingDebit.default.settled attempted acknowledged = .default := by
      simp [PendingDebit.default, PendingDebit.settled]
    simp only [flushSettle, hentry, entryOrDefault_eq_default hentry, hsettled]
    split_ifs with hq
    · rw [hq, entryOrDefault_eq_default hentry]
    · rfl

theorem entryOrDefault_flushDrop (pending : PendingDebits) (principal q : String) :
    entryOrDefault (flushDrop pending principal) q =
      if q = principal then { entryOrDefault pending principal with flushing := false }
      else entryOrDefault pending q := by
  cases hentry : pending.lookup principal with
  | some p =>
    rw [flushDrop, hentry, entryOrDefault_insert, entryOrDefault_eq hentry]
  | none =>
    rw [flushDrop, hentry]
    split_ifs with hq
    · rw [hq, entryOrDefault_eq_default hentry]
      rfl
    · rfl

/-- It lets a principal through only when nothing is pending or under way, and otherwise reports
what is pending when nothing is under way. -/
theorem flushBegin_spec (pending : PendingDebits) (principal : String) :
    (∀ outcome, flushBegin pending principal = .inl outcome → outcome = .proceed →
      entryOrDefault pending principal = .default) ∧
      ∀ attempted pending', flushBegin pending principal = .inr (attempted, pending') →
        (entryOrDefault pending principal).flushing = false ∧
          (entryOrDefault pending principal).activeReports = 0 ∧
          attempted = (entryOrDefault pending principal).delta ∧
          ∀ q, entryOrDefault pending' q =
            if q = principal then { entryOrDefault pending principal with flushing := true }
            else entryOrDefault pending q := by
  cases hentry : pending.lookup principal with
  | none =>
    refine ⟨fun _ _ _ => entryOrDefault_eq_default hentry, fun attempted pending' h => ?_⟩
    simp [flushBegin, hentry] at h
  | some p =>
    rw [entryOrDefault_eq hentry]
    simp only [flushBegin, hentry]
    by_cases hbusy : p.flushing || decide (p.activeReports ≠ 0)
    · rw [if_pos hbusy]
      refine ⟨fun outcome h hproceed => ?_, fun attempted pending' h => nomatch h⟩
      cases h
      cases hproceed
    · rw [if_neg hbusy]
      simp only [Bool.or_eq_true, decide_eq_true_eq, not_or, Bool.not_eq_true, not_not] at hbusy
      by_cases hdelta : p.delta = 0
      · rw [if_pos hdelta]
        refine ⟨fun _ _ _ => ?_, fun attempted pending' h => nomatch h⟩
        exact PendingDebit.eq_default_of_isIdle (by simp [PendingDebit.isIdle, hbusy, hdelta])
      · rw [if_neg hdelta]
        refine ⟨fun _ h _ => (nomatch h), fun attempted pending' h => ?_⟩
        cases h
        exact ⟨hbusy.1, hbusy.2, rfl, fun q => entryOrDefault_insert pending principal q _⟩

end Debits

inductive ReportKind where
  | debit
  | flush
  deriving DecidableEq

/-- Reports of the same amount for one principal are interchangeable. -/
structure LiveReport where
  kind : ReportKind
  principal : String
  amount : ℕ
  deriving DecidableEq

def reports (live : Multiset LiveReport) (kind : ReportKind) (principal : String) : Multiset ℕ :=
  (live.filter fun r => r.kind = kind ∧ r.principal = principal).map LiveReport.amount

theorem reports_cons (live : Multiset LiveReport) (report : LiveReport) (kind : ReportKind)
    (principal : String) :
    reports (report ::ₘ live) kind principal =
      if report.kind = kind ∧ report.principal = principal then
        report.amount ::ₘ reports live kind principal
      else reports live kind principal := by
  simp only [reports, Multiset.filter_cons]
  split_ifs
  · rw [Multiset.singleton_add, Multiset.map_cons]
  · rw [zero_add]

/-- The pending map, the reports under way, and two sums for the record. -/
structure QuotaState where
  pending : PendingDebits
  live : Multiset LiveReport
  /-- Amounts passed to `debit`. -/
  passed : String → ℕ
  /-- Amounts of acknowledged reports. -/
  acknowledged : String → ℕ

def QuotaState.start : QuotaState := ⟨∅, 0, fun _ => 0, fun _ => 0⟩

inductive QuotaEvent where
  | debit (principal : String) (total : ℕ)
  | flushPending (principal : String)
  /-- The service answers a report: acknowledged, or failed. -/
  | settle (report : LiveReport) (acknowledged : Bool)
  /-- The call is dropped while it waits for the answer. -/
  | cancel (report : LiveReport)

namespace QuotaState

def acknowledge (s : QuotaState) (report : LiveReport) (acknowledged : Bool) : String → ℕ :=
  if acknowledged then
    Function.update s.acknowledged report.principal
      (s.acknowledged report.principal + report.amount)
  else s.acknowledged

/-- With the answer of the `flush_pending` call that returns in it. -/
def perform (s : QuotaState) : QuotaEvent → Option (String × FlushOutcome) × QuotaState
  | .debit principal total =>
    (none, { s with
      pending := debitBegin s.pending principal
      live := ⟨.debit, principal, total⟩ ::ₘ s.live
      passed := Function.update s.passed principal (s.passed principal + total) })
  | .flushPending principal =>
    match flushBegin s.pending principal with
    | .inl outcome => (some (principal, outcome), s)
    | .inr (attempted, pending) =>
      (none, { s with pending := pending, live := ⟨.flush, principal, attempted⟩ ::ₘ s.live })
  | .settle report acknowledged =>
    if report ∈ s.live then
      match report.kind with
      | .debit =>
        (none, { s with
          pending := debitFinish s.pending report.principal report.amount acknowledged
          live := s.live.erase report
          acknowledged := s.acknowledge report acknowledged })
      | .flush =>
        let settled := flushSettle s.pending report.principal report.amount acknowledged
        (some (report.principal, settled.1), { s with
          pending := settled.2
          live := s.live.erase report
          acknowledged := s.acknowledge report acknowledged })
    else (none, s)
  | .cancel report =>
    if report ∈ s.live then
      match report.kind with
      | .debit =>
        (none, { s with
          pending := debitFinish s.pending report.principal report.amount false
          live := s.live.erase report })
      | .flush =>
        (none, { s with
          pending := flushDrop s.pending report.principal
          live := s.live.erase report })
    else (none, s)

def step (s : QuotaState) (event : QuotaEvent) : QuotaState := (s.perform event).2

def inFlight (s : QuotaState) (principal : String) : ℕ :=
  (reports s.live .debit principal).sum + (reports s.live .flush principal).sum

def recorded (s : QuotaState) (principal : String) : ℕ := (entryOrDefault s.pending principal).delta

end QuotaState

section Accounts

/-- Its entry, the amounts under way and the sums so far. -/
structure QuotaAccount where
  entry : PendingDebit
  debits : Multiset ℕ
  flushes : Multiset ℕ
  passed : ℕ
  acknowledged : ℕ

def QuotaState.account (s : QuotaState) (principal : String) : QuotaAccount where
  entry := entryOrDefault s.pending principal
  debits := reports s.live .debit principal
  flushes := reports s.live .flush principal
  passed := s.passed principal
  acknowledged := s.acknowledged principal

/-- A report that is dropped leaves the account as one that fails. -/
inductive AccountStep (a : QuotaAccount) : QuotaAccount → Prop
  | stay : AccountStep a a
  | debit (total : ℕ) : AccountStep a { a with
      entry := { a.entry with activeReports := a.entry.activeReports + 1 }
      debits := total ::ₘ a.debits
      passed := a.passed + total }
  | finish (amount : ℕ) (rest : Multiset ℕ) (h : a.debits = amount ::ₘ rest) (confirmed : Bool) :
    AccountStep a { a with
      entry := a.entry.finished amount confirmed
      debits := rest
      acknowledged := a.acknowledged + if confirmed then amount else 0 }
  | flush (hflushing : a.entry.flushing = false) (hactive : a.entry.activeReports = 0) :
    AccountStep a { a with
      entry := { a.entry with flushing := true }
      flushes := a.entry.delta ::ₘ a.flushes }
  | settle (amount : ℕ) (rest : Multiset ℕ) (h : a.flushes = amount ::ₘ rest)
    (acknowledged : Bool) : AccountStep a { a with
      entry := a.entry.settled amount acknowledged
      flushes := rest
      acknowledged := a.acknowledged + if acknowledged then amount else 0 }

variable {s : QuotaState} {principal q : String}

theorem account_eq_of_ne {s' : QuotaState} (hentry : entryOrDefault s'.pending q =
      entryOrDefault s.pending q) (hreports : ∀ kind, reports s'.live kind q = reports s.live kind q)
    (hpassed : s'.passed q = s.passed q) (hacknowledged : s'.acknowledged q = s.acknowledged q) :
    AccountStep (s.account q) (s'.account q) := by
  have heq : s'.account q = s.account q := by
    rw [QuotaState.account, hentry, hreports, hreports, hpassed, hacknowledged]
    rfl
  rw [heq]
  exact .stay

theorem acknowledge_apply (s : QuotaState) (report : LiveReport) (acknowledged : Bool)
    (q : String) :
    s.acknowledge report acknowledged q = s.acknowledged q +
      if q = report.principal ∧ acknowledged = true then report.amount else 0 := by
  unfold QuotaState.acknowledge
  by_cases hq : q = report.principal
  · subst hq
    cases acknowledged <;> simp
  · cases acknowledged <;> simp [hq]

theorem accountStep_debit (s : QuotaState) (principal : String) (total : ℕ) (q : String) :
    AccountStep (s.account q) ((s.step (.debit principal total)).account q) := by
  by_cases hq : q = principal
  · subst hq
    have hstep := AccountStep.debit (a := s.account q) total
    simpa [QuotaState.account, QuotaState.step, QuotaState.perform, debitBegin,
      entryOrDefault_insert, reports_cons] using hstep
  · refine account_eq_of_ne ?_ ?_ ?_ rfl <;>
      simp [QuotaState.step, QuotaState.perform, debitBegin, entryOrDefault_insert, hq,
        reports_cons, Ne.symm hq]

def LiveReport.over (report : LiveReport) (p : PendingDebit) (acknowledged : Bool) :
    PendingDebit :=
  match report.kind with
  | .debit => p.finished report.amount acknowledged
  | .flush => p.settled report.amount acknowledged

theorem accountStep_over {report : LiveReport} (h : report ∈ s.live) {pending : PendingDebits}
    {acknowledged : Bool}
    (hpending : ∀ q, entryOrDefault pending q =
      if q = report.principal then
        report.over (entryOrDefault s.pending report.principal) acknowledged
      else entryOrDefault s.pending q) (q : String) :
    AccountStep (s.account q) (QuotaState.account
      { s with
        pending := pending
        live := s.live.erase report
        acknowledged := s.acknowledge report acknowledged } q) := by
  have hreports := fun kind => reports_cons (s.live.erase report) report kind q
  simp only [Multiset.cons_erase h] at hreports
  obtain ⟨kind, principal, amount⟩ := report
  by_cases hq : q = principal
  · subst hq
    have hentry := hpending q
    rw [if_pos rfl] at hentry
    cases kind with
    | debit =>
      have hdebits := hreports .debit
      have hflushes := hreports .flush
      simp only [reduceCtorEq, and_true, if_true, if_false] at hdebits hflushes
      have hstep := AccountStep.finish (a := s.account q) amount _ hdebits acknowledged
      simpa [QuotaState.account, hentry, LiveReport.over, acknowledge_apply, ← hflushes]
        using hstep
    | flush =>
      have hdebits := hreports .debit
      have hflushes := hreports .flush
      simp only [reduceCtorEq, and_true, if_true, if_false] at hdebits hflushes
      have hstep := AccountStep.settle (a := s.account q) amount _ hflushes acknowledged
      simpa [QuotaState.account, hentry, LiveReport.over, acknowledge_apply, ← hdebits]
        using hstep
  · refine account_eq_of_ne ?_ (fun kind => ?_) rfl ?_
    · simpa [hq] using hpending q
    · simpa [Ne.symm hq] using (hreports kind).symm
    · simp [acknowledge_apply, hq]

theorem accountStep_flushPending (s : QuotaState) (principal q : String) :
    AccountStep (s.account q) ((s.step (.flushPending principal)).account q) := by
  simp only [QuotaState.step, QuotaState.perform]
  split
  · exact .stay
  · next attempted pending hbegin =>
    obtain ⟨hflushing, hactive, rfl, hpending⟩ :=
      (flushBegin_spec s.pending principal).2 attempted pending hbegin
    by_cases hq : q = principal
    · subst hq
      have hstep := AccountStep.flush (a := s.account q) hflushing hactive
      simpa [QuotaState.account, hpending, reports_cons] using hstep
    · refine account_eq_of_ne ?_ (fun kind => ?_) rfl rfl
      · simpa [hq] using hpending q
      · simp [reports_cons, Ne.symm hq]

theorem accountStep (s : QuotaState) (event : QuotaEvent) (q : String) :
    AccountStep (s.account q) ((s.step event).account q) := by
  have hdropped : ∀ report, s.acknowledge report false = s.acknowledged := fun _ => rfl
  cases event with
  | debit principal total => exact accountStep_debit s principal total q
  | flushPending principal => exact accountStep_flushPending s principal q
  | settle report acknowledged =>
    simp only [QuotaState.step, QuotaState.perform]
    split_ifs with h
    · split
      · next hkind =>
        refine accountStep_over h (fun q => ?_) q
        simp only [debitFinish, entryOrDefault_replace, LiveReport.over, hkind]
      · next hkind =>
        refine accountStep_over h (fun q => ?_) q
        simp only [entryOrDefault_flushSettle, LiveReport.over, hkind]
    · exact .stay
  | cancel report =>
    simp only [QuotaState.step, QuotaState.perform]
    split_ifs with h
    · split
      · next hkind =>
        rw [← hdropped report]
        refine accountStep_over h (fun q => ?_) q
        simp only [debitFinish, entryOrDefault_replace, LiveReport.over, hkind]
      · next hkind =>
        rw [← hdropped report]
        refine accountStep_over h (fun q => ?_) q
        simp only [entryOrDefault_flushDrop, LiveReport.over, hkind]
        rfl
    · exact .stay

namespace QuotaAccount

/-- The entry counts what is under way. -/
structure Counted (a : QuotaAccount) : Prop where
  debits : a.debits.card = a.entry.activeReports
  flushes : a.flushes.card = if a.entry.flushing then 1 else 0

/-- What was passed is acknowledged, pending or first being reported; a flush reports no more than
what is pending. -/
structure Balanced (a : QuotaAccount) : Prop where
  total : a.passed = a.acknowledged + a.entry.delta + a.debits.sum
  covered : ∀ amount ∈ a.flushes, amount ≤ a.entry.delta

variable {a a' : QuotaAccount}

theorem Counted.step (h : a.Counted) (hstep : AccountStep a a') : a'.Counted := by
  obtain ⟨hdebits, hflushes⟩ := h
  cases hstep with
  | stay => exact ⟨hdebits, hflushes⟩
  | debit total => exact ⟨by simp [hdebits], hflushes⟩
  | finish amount rest hrest confirmed =>
    refine ⟨?_, hflushes⟩
    rw [hrest, Multiset.card_cons] at hdebits
    simp [PendingDebit.finished, ← hdebits]
  | flush hflushing hactive =>
    refine ⟨hdebits, ?_⟩
    rw [hflushing] at hflushes
    simpa using hflushes
  | settle amount rest hrest acknowledged =>
    refine ⟨hdebits, ?_⟩
    rw [hrest, Multiset.card_cons] at hflushes
    simp only [PendingDebit.settled]
    split_ifs at hflushes
    simpa using hflushes

theorem passed_le_of_step (hstep : AccountStep a a') : a.passed ≤ a'.passed := by
  cases hstep with
  | debit total => exact Nat.le_add_right _ _
  | _ => exact le_rfl

theorem Balanced.step (h : a.Balanced) (hcounted : a.Counted) (hstep : AccountStep a a')
    (hlimit : a'.passed < 2 ^ 64) : a'.Balanced := by
  obtain ⟨htotal, hcovered⟩ := h
  cases hstep with
  | stay => exact ⟨htotal, hcovered⟩
  | debit total =>
    refine ⟨?_, hcovered⟩
    rw [Multiset.sum_cons]
    dsimp only
    omega
  | finish amount rest hrest confirmed =>
    rw [hrest, Multiset.sum_cons] at htotal
    dsimp only at hlimit
    cases confirmed with
    | true => exact ⟨by simp only [PendingDebit.finished, if_true]; omega, hcovered⟩
    | false =>
      have hdelta : (a.entry.finished amount false).delta = a.entry.delta + amount := by
        simp only [PendingDebit.finished, u64SaturatingAdd, Bool.false_eq_true, if_false]
        omega
      refine ⟨?_, fun x hx => ?_⟩
      · simp only [hdelta, Bool.false_eq_true, if_false]
        omega
      · have hle := hcovered x hx
        simp only [hdelta]
        omega
  | flush hflushing hactive =>
    refine ⟨htotal, fun x hx => ?_⟩
    rcases Multiset.mem_cons.1 hx with rfl | hx
    · exact le_rfl
    · exact hcovered x hx
  | settle amount rest hrest acknowledged =>
    have hle := hcovered amount (hrest ▸ Multiset.mem_cons_self amount rest)
    have hflushes := hcounted.flushes
    rw [hrest, Multiset.card_cons] at hflushes
    have hnone : rest = 0 := by
      split_ifs at hflushes
      exact Multiset.card_eq_zero.1 (by omega)
    subst hnone
    refine ⟨?_, fun x hx => by simp at hx⟩
    cases acknowledged with
    | true => simp only [PendingDebit.settled, if_true]; omega
    | false => exact htotal

end QuotaAccount

end Accounts

namespace QuotaState

variable {s : QuotaState} {principal : String}

theorem sound_run (events : List QuotaEvent) (principal : String) :
    ((run step start events).account principal).Counted ∧
      ((run step start events).passed principal < 2 ^ 64 →
        ((run step start events).account principal).Balanced) :=
  invariant_run (I := fun s : QuotaState => (s.account principal).Counted ∧
      (s.passed principal < 2 ^ 64 → (s.account principal).Balanced))
    (fun s event hs => by
      have hstep := accountStep s event principal
      refine ⟨hs.1.step hstep, fun hlimit => ?_⟩
      have hbefore := lt_of_le_of_lt (QuotaAccount.passed_le_of_step hstep) hlimit
      exact (hs.2 hbefore).step hs.1 hstep hlimit)
    (s := start) ⟨⟨rfl, rfl⟩, fun _ => ⟨rfl, fun _ h => absurd h (Multiset.notMem_zero _)⟩⟩ events

theorem proceed_settled {event : QuotaEvent}
    (hafter : ((s.step event).account principal).Counted)
    (h : (s.perform event).1 = some (principal, .proceed)) :
    (s.step event).recorded principal = 0 ∧
      ∀ kind, reports (s.step event).live kind principal = 0 := by
  have hentry : (s.step event).recorded principal = 0 ∧
      (entryOrDefault (s.step event).pending principal).flushing = false ∧
      (entryOrDefault (s.step event).pending principal).activeReports = 0 := by
    cases event with
    | debit _ _ => cases h
    | flushPending q =>
      simp only [step, recorded, perform] at h ⊢
      split at h
      · next outcome hbegin =>
        obtain ⟨rfl, rfl⟩ := Prod.mk.inj (Option.some.inj h)
        rw [(flushBegin_spec s.pending q).1 _ hbegin rfl]
        exact ⟨rfl, rfl, rfl⟩
      · cases h
    | settle report acknowledged =>
      simp only [step, recorded, perform] at h ⊢
      split_ifs at h ⊢ with hlive
      · split at h
        · cases h
        · obtain ⟨rfl, houtcome⟩ := Prod.mk.inj (Option.some.inj h)
          simp only [entryOrDefault_flushSettle, if_true]
          cases hentry : s.pending.lookup report.principal with
          | some p =>
            rw [entryOrDefault_eq hentry]
            simp only [flushSettle, hentry] at houtcome
            split_ifs at houtcome with hcond
            simp only [Bool.and_eq_true, decide_eq_true_eq] at hcond
            exact ⟨hcond.1.2, rfl, hcond.2⟩
          | none =>
            rw [entryOrDefault_eq_default hentry]
            simp [PendingDebit.default, PendingDebit.settled]
    | cancel report =>
      simp only [perform] at h
      split_ifs at h
      split at h <;> cases h
  obtain ⟨hdelta, hflushing, hactive⟩ := hentry
  refine ⟨hdelta, fun kind => ?_⟩
  cases kind with
  | debit => exact Multiset.card_eq_zero.1 (hafter.debits.trans hactive)
  | flush =>
    have hflushes := hafter.flushes
    rw [account, hflushing] at hflushes
    exact Multiset.card_eq_zero.1 hflushes

/-- What was passed to `debit` is acknowledged, recorded or under way, and counted twice only while
a flush reports what is still recorded; a principal has at most one flush under way, and is let
through only when nothing is left for it. -/
theorem debits_conserved (events : List QuotaEvent) (principal : String) :
    let s := run step start events
    (s.passed principal < 2 ^ 64 →
      s.passed principal ≤
          s.acknowledged principal + s.recorded principal + s.inFlight principal ∧
        s.acknowledged principal + s.recorded principal + s.inFlight principal =
          s.passed principal + (reports s.live .flush principal).sum) ∧
      (reports s.live .flush principal).card ≤ 1 ∧
      (∀ event, (s.perform event).1 = some (principal, .proceed) →
        (s.step event).recorded principal = 0 ∧
          ∀ kind, reports (s.step event).live kind principal = 0) ∧
      (s.live = 0 → ∀ entry, s.pending.lookup principal = some entry → entry.flushing = false) := by
  obtain ⟨hcounted, hbalanced⟩ := sound_run events principal
  refine ⟨fun hlimit => ?_, ?_, fun event hproceed => ?_, fun hdone entry hentry => ?_⟩
  · have htotal := (hbalanced hlimit).total
    simp only [account] at htotal
    unfold recorded inFlight
    omega
  · have hle : ∀ b : Bool, (if b then 1 else 0) ≤ 1 := by decide
    exact hcounted.flushes.trans_le (hle _)
  · exact proceed_settled (hcounted.step (accountStep _ event principal)) hproceed
  · have hflushes := hcounted.flushes
    simp only [account, hdone, entryOrDefault_eq hentry] at hflushes
    split_ifs at hflushes with hflushing
    · cases hflushes
    · exact Bool.eq_false_iff.2 hflushing

def sampleFlush : List QuotaEvent :=
  [.debit "alice" 5, .settle ⟨.debit, "alice", 5⟩ false, .flushPending "alice"]

theorem debits_conserved_flushed :
    let s := run step start sampleFlush
    s.acknowledged "alice" + s.recorded "alice" + s.inFlight "alice" = s.passed "alice" + 5 ∧
      (s.perform (.settle ⟨.flush, "alice", 5⟩ true)).1 = some ("alice", .proceed) ∧
      (s.step (.settle ⟨.flush, "alice", 5⟩ true)).recorded "alice" = 0 := by
  obtain ⟨hbalance, -, hproceed, -⟩ := debits_conserved sampleFlush "alice"
  have hanswer : ((run step start sampleFlush).perform (.settle ⟨.flush, "alice", 5⟩ true)).1 =
      some ("alice", .proceed) := by decide +kernel
  refine ⟨?_, hanswer, (hproceed _ hanswer).1⟩
  rw [(hbalance (by decide +kernel)).2]
  decide +kernel

theorem flush_counted_twice :
    let s := run step start sampleFlush
    s.passed "alice" = 5 ∧
      s.acknowledged "alice" + s.recorded "alice" + s.inFlight "alice" = 10 := by
  decide +kernel

/-- A principal with nothing under way gets through, by a flush at once or by one whose report is
acknowledged. -/
theorem flush_recovers (events : List QuotaEvent) (principal : String)
    (hidle : ∀ kind, reports (run step start events).live kind principal = 0)
    (hlimit : (run step start events).passed principal < 2 ^ 64) :
    let s := run step start events
    let flushed := s.step (.flushPending principal)
    (s.perform (.flushPending principal)).1 = some (principal, .proceed) ∧
        s.acknowledged principal = s.passed principal ∨
      ∃ report ∈ flushed.live,
        (flushed.perform (.settle report true)).1 = some (principal, .proceed) ∧
        (flushed.step (.settle report true)).acknowledged principal = s.passed principal := by
  obtain ⟨⟨hdebits, hflushes⟩, hbalanced⟩ := sound_run events principal
  have htotal := (hbalanced hlimit).total
  generalize run step start events = s at *
  simp only [account, hidle, Multiset.card_zero, Multiset.sum_zero] at hdebits hflushes htotal
  cases hentry : s.pending.lookup principal with
  | none =>
    rw [entryOrDefault_eq_default hentry] at htotal
    exact .inl ⟨by simp [perform, flushBegin, hentry], htotal.symm⟩
  | some p =>
    rw [entryOrDefault_eq hentry] at hdebits hflushes htotal
    have hflushing : p.flushing = false := by
      split_ifs at hflushes with hp
      exact Bool.eq_false_iff.2 hp
    by_cases hdelta : p.delta = 0
    · refine .inl ⟨?_, by omega⟩
      simp [perform, flushBegin, hentry, hflushing, ← hdebits, hdelta]
    · refine .inr ⟨⟨.flush, principal, p.delta⟩, ?_⟩
      simp [step, perform, flushBegin, flushSettle, hentry, hflushing, ← hdebits, hdelta,
        PendingDebit.settled, acknowledge, htotal]

theorem flush_recovers_refused :
    let s := run step start [.debit "alice" 5, .settle ⟨.debit, "alice", 5⟩ false]
    s.acknowledged "alice" = 0 ∧ ∃ report ∈ (s.step (.flushPending "alice")).live,
      ((s.step (.flushPending "alice")).step (.settle report true)).acknowledged "alice" = 5 := by
  have hidle : ∀ kind, reports (run step start
      [.debit "alice" 5, .settle ⟨.debit, "alice", 5⟩ false]).live kind "alice" = 0 := by
    rintro (_ | _) <;> decide +kernel
  rcases flush_recovers _ "alice" hidle (by decide +kernel) with ⟨-, h⟩ | ⟨report, hmem, -, h⟩
  · exact absurd h (by decide +kernel)
  · exact ⟨by decide +kernel, report, hmem, h⟩

end QuotaState

end PraxisPolicy
