import PraxisPolicy.CibaApprovals

/-!
# The protocol of one approval

The calls on one elicitation id, on the part of the state that concerns it.  Among the checks that
have polled, at most one has not given its claim back.
-/

namespace PraxisPolicy

section View

/-- The part of the state that concerns one id. -/
structure ApprovalView where
  phases : ℕ → Option CheckPhase
  entry : ApprovalEntry
  redeemed : List Redemption

namespace CheckPhase

def isPolling : CheckPhase → Bool
  | .polling _ => true
  | _ => false

/-- The check gave its claim back, or stored an approver. -/
def isSettled : CheckPhase → Bool
  | .ended (.released _ _) _ | .ended (.completed _ _ _) _ => true
  | _ => false

/-- The lease of a check that has polled and not given its claim back. -/
def openDeadline : CheckPhase → Option ℕ
  | .ended (.released _ _) _ => none
  | phase => phase.sentDeadline

/-- The claim was settled before the end of the lease. -/
def Timely : CheckPhase → Prop
  | .ended (.released deadline instant) _ | .ended (.completed deadline instant _) _ =>
    instant < deadline
  | _ => True

variable {phase before after : CheckPhase}

theorem openDeadline_eq_sentDeadline (h : phase.isSettled = false) :
    phase.openDeadline = phase.sentDeadline := by
  cases phase with
  | ended fate reply =>
    cases fate with
    | released deadline instant => cases h
    | _ => rfl
  | _ => rfl

theorem timely_of_not_isSettled (h : phase.isSettled = false) :
    phase.Timely := by
  cases phase with
  | ended fate reply =>
    cases fate with
    | released deadline instant => cases h
    | completed deadline instant approver => cases h
    | _ => trivial
  | _ => trivial

theorem not_isSettled_of_unsent (h : phase.sentDeadline = none) :
    phase.isSettled = false := by
  unfold isSettled
  split
  · cases h
  · cases h
  · rfl

theorem openDeadline_of_unsent (h : phase.sentDeadline = none) : phase.openDeadline = none := by
  rw [openDeadline_eq_sentDeadline (not_isSettled_of_unsent h), h]

/-- A check moves on without settling a claim and without a new poll. -/
def Quiet (before after : CheckPhase) : Prop :=
  after = before ∨
    after.sentDeadline = before.sentDeadline ∧ before.isSettled = false ∧
      after.isSettled = false ∧ after.isPolling = false

theorem Quiet.openDeadline_eq (h : Quiet before after) :
    after.openDeadline = before.openDeadline := by
  rcases h with rfl | ⟨hsent, hbefore, hafter, -⟩
  · rfl
  · rw [openDeadline_eq_sentDeadline hbefore, openDeadline_eq_sentDeadline hafter, hsent]

theorem Quiet.sentDeadline_eq (h : Quiet before after) :
    after.sentDeadline = before.sentDeadline := by
  rcases h with rfl | ⟨hsent, -⟩
  · rfl
  · exact hsent

theorem Quiet.timely (h : Quiet before after) (ht : before.Timely) :
    after.Timely := by
  rcases h with rfl | ⟨-, -, hafter, -⟩
  · exact ht
  · exact timely_of_not_isSettled hafter

theorem openDeadline_of_isPolling (h : phase.isPolling = true) :
    ∃ deadline, phase.openDeadline = some deadline := by
  cases phase with
  | polling deadline => exact ⟨deadline, rfl⟩
  | _ => cases h

theorem openDeadline_or_released {deadline : ℕ} (h : phase.sentDeadline = some deadline) :
    phase.openDeadline = some deadline ∨
      ∃ instant reply, phase = .ended (.released deadline instant) reply := by
  cases phase with
  | ended fate reply =>
    cases fate with
    | released d instant =>
      cases h
      exact .inr ⟨instant, reply, rfl⟩
    | _ => exact .inl h
  | _ => exact .inl h

end CheckPhase

namespace ApprovalEntry

/-- An entry is left alone, dropped whole, or marked uncertain. -/
inductive Wanes : ApprovalEntry → ApprovalEntry → Prop
  | fades {before after : ApprovalEntry} (h : Fades before after) : Wanes before after
  | marked (c : Correlation) (holder : String) (deadline : ℕ) :
      Wanes ⟨some c, some (.inFlight holder deadline)⟩ ⟨some c, some .uncertain⟩

variable {before after : ApprovalEntry} {c : Correlation} {owner : String} {deadline : ℕ}

theorem Wanes.correlation (h : before.Wanes after) (hc : after.correlation = some c) :
    before.correlation = some c := by
  cases h with
  | fades hfades =>
    rcases hfades with rfl | rfl
    · exact hc
    · cases hc
  | marked c' holder deadline => exact hc

theorem Wanes.correlation_eq_none (h : before.Wanes after) (hnone : before.correlation = none) :
    after.correlation = none := by
  cases hc : after.correlation with
  | none => rfl
  | some c =>
    rw [h.correlation hc] at hnone
    cases hnone

/-- No check can claim this entry, and only `owner` could end the claim on it. -/
def Blocked (entry : ApprovalEntry) (owner : String) (deadline : ℕ) : Prop :=
  entry.correlation = none ∨ entry.poll = some .uncertain ∨
    entry.poll = some (.inFlight owner deadline) ∨
      ∃ c approver, entry = ⟨some c, none⟩ ∧ c.resolvedApprover = some approver

theorem Blocked.wanes (h : before.Blocked owner deadline) (hw : before.Wanes after) :
    after.Blocked owner deadline := by
  cases hw with
  | fades hfades =>
    rcases hfades with rfl | rfl
    · exact h
    · exact .inl rfl
  | marked c holder d => exact .inr (.inl rfl)

end ApprovalEntry

open ApprovalEntry

/-- What a step of any call does to one id. -/
inductive ViewStep (owner : ℕ → String) (v : ApprovalView) : ApprovalView → Prop
  | fades (after : ApprovalEntry) (h : v.entry.Fades after) :
      ViewStep owner v { v with entry := after }
  | begins (i : ℕ) (phase : CheckPhase) (hnew : v.phases i = none)
      (hsent : phase.sentDeadline = none) :
      ViewStep owner v { v with phases := Function.update v.phases i (some phase) }
  | quiet (i : ℕ) (before after : CheckPhase) (entry : ApprovalEntry)
      (hphase : v.phases i = some before) (hquiet : before.Quiet after)
      (hentry : v.entry.Wanes entry) :
      ViewStep owner v
        { v with phases := Function.update v.phases i (some after), entry := entry }
  | acquires (i : ℕ) (c : Correlation) (deadline : ℕ) (hphase : v.phases i = some .matched)
      (hentry : v.entry = ⟨some c, none⟩) (hopen : c.resolvedApprover = none) :
      ViewStep owner v
        { v with
          phases := Function.update v.phases i (some (.polling deadline))
          entry := ⟨some c, some (.inFlight (owner i) deadline)⟩ }
  | releases (i : ℕ) (c : Correlation) (deadline found instant : ℕ) (reply : ElicitationReply)
      (hphase : v.phases i = some (.settling deadline .release reply))
      (hentry : v.entry = ⟨some c, some (.inFlight (owner i) found)⟩) (hlease : instant < found) :
      ViewStep owner v
        { v with
          phases := Function.update v.phases i (some (.ended (.released deadline instant) reply))
          entry := ⟨some c, none⟩ }
  | completes (i : ℕ) (c : Correlation) (deadline found instant : ℕ) (approver : String)
      (reply : ElicitationReply)
      (hphase : v.phases i = some (.settling deadline (.complete approver) reply))
      (hentry : v.entry = ⟨some c, some (.inFlight (owner i) found)⟩) (hlease : instant < found) :
      ViewStep owner v
        { v with
          phases := Function.update v.phases i
            (some (.ended (.completed deadline instant approver) reply))
          entry := ⟨some { c with resolvedApprover := some approver }, none⟩ }
  | redeems (r : Redemption) (approver : String) (hentry : v.entry.correlation = some r.correlation)
      (hbound : r.correlation.boundToPayload r.payload = true)
      (hresolved : r.correlation.resolvedApprover = some approver) :
      ViewStep owner v { v with entry := gone, redeemed := r :: v.redeemed }

end View

section Soundness

open ApprovalEntry

abbrev CheckPhases := ℕ → Option CheckPhase

/-- Check `i` has polled under a lease until `deadline` and not given its claim back. -/
def IsOpen (phases : CheckPhases) (i deadline : ℕ) : Prop :=
  ∃ phase, phases i = some phase ∧ phase.openDeadline = some deadline

variable {phases : CheckPhases} {i j found deadline : ℕ} {phase before after : CheckPhase}
  {c : Correlation} {reply : ElicitationReply} {w : ApprovalView}

theorem phase_update {found : CheckPhase}
    (h : Function.update phases i (some phase) j = some found) :
    j = i ∧ found = phase ∨ j ≠ i ∧ phases j = some found := by
  by_cases hij : j = i
  · rw [hij, Function.update_self] at h
    exact .inl ⟨hij, (Option.some.inj h).symm⟩
  · rw [Function.update_of_ne hij] at h
    exact .inr ⟨hij, h⟩

theorem isOpen_update (h : IsOpen (Function.update phases i (some phase)) j deadline) :
    j = i ∧ phase.openDeadline = some deadline ∨ j ≠ i ∧ IsOpen phases j deadline := by
  obtain ⟨found, hfound, hopen⟩ := h
  rcases phase_update hfound with ⟨hij, rfl⟩ | ⟨hij, hfound⟩
  · exact .inl ⟨hij, hopen⟩
  · exact .inr ⟨hij, found, hfound, hopen⟩

def KeepsSettled (before after : CheckPhases) : Prop :=
  ∀ i phase, before i = some phase → phase.isSettled = true → after i = some phase

theorem keepsSettled_update
    (h : ∀ phase, phases i = some phase → phase.isSettled = true → phase = after) :
    KeepsSettled phases (Function.update phases i (some after)) := by
  intro j phase hphase hsettled
  by_cases hij : j = i
  · subst hij
    rw [Function.update_self, h phase hphase hsettled]
  · rwa [Function.update_of_ne hij]

theorem keepsSettled_of_not_isSettled (hphase : phases i = some before)
    (h : before.isSettled = false) :
    KeepsSettled phases (Function.update phases i (some after)) :=
  keepsSettled_update fun phase hfound hsettled => by
    rw [hphase] at hfound
    cases hfound
    rw [h] at hsettled
    cases hsettled

theorem keepsSettled_of_quiet (hphase : phases i = some before) (hquiet : before.Quiet after) :
    KeepsSettled phases (Function.update phases i (some after)) := by
  rcases hquiet with rfl | ⟨-, hbefore, -⟩
  · rw [← hphase, Function.update_eq_self]
    exact fun _ _ h _ => h
  · exact keepsSettled_of_not_isSettled hphase hbefore

structure Granted (dispatched : Correlation) (phases : CheckPhases) (c : Correlation) : Prop where
  binding : c = { dispatched with resolvedApprover := c.resolvedApprover }
  approver : ∀ name, c.resolvedApprover = some name →
    ∃ i deadline instant reply,
      phases i = some (.ended (.completed deadline instant name) reply)

theorem Granted.mono {dispatched : Correlation} {before after : CheckPhases}
    (h : Granted dispatched before c) (hkeeps : KeepsSettled before after) :
    Granted dispatched after c where
  binding := h.binding
  approver name hname := by
    obtain ⟨i, deadline, instant, reply, hphase⟩ := h.approver name hname
    exact ⟨i, deadline, instant, reply, hkeeps i _ hphase rfl⟩

structure SoundApproval (owner : ℕ → String) (dispatched : Correlation) (v : ApprovalView) :
    Prop where
  blocked : ∀ i deadline, IsOpen v.phases i deadline → v.entry.Blocked (owner i) deadline
  single : ∀ i j d e, IsOpen v.phases i d → IsOpen v.phases j e → i = j
  timely : ∀ i phase, v.phases i = some phase → phase.Timely
  granted : ∀ c, v.entry.correlation = some c → Granted dispatched v.phases c
  spent : v.redeemed ≠ [] → v.entry.correlation = none
  once : v.redeemed.length ≤ 1
  redeemed : ∀ r ∈ v.redeemed, Granted dispatched v.phases r.correlation ∧
    r.correlation.boundToPayload r.payload = true ∧ r.correlation.resolvedApprover.isSome = true

variable {owner : ℕ → String} {dispatched : Correlation} {v : ApprovalView} {entry : ApprovalEntry}
  {approver : String}

theorem forall_phase_update {P : CheckPhase → Prop} (h : ∀ j p, phases j = some p → P p)
    (hphase : P phase) (j : ℕ) (p : CheckPhase)
    (hp : Function.update phases i (some phase) j = some p) : P p := by
  rcases phase_update hp with ⟨-, rfl⟩ | ⟨-, hp⟩
  · exact hphase
  · exact h j p hp

theorem SoundApproval.redeemed_mono (h : SoundApproval owner dispatched v) {after : CheckPhases}
    (hkeeps : KeepsSettled v.phases after) (r : Redemption) (hr : r ∈ v.redeemed) :
    Granted dispatched after r.correlation ∧ r.correlation.boundToPayload r.payload = true ∧
      r.correlation.resolvedApprover.isSome = true :=
  ⟨(h.redeemed r hr).1.mono hkeeps, (h.redeemed r hr).2⟩

theorem SoundApproval.fades (h : SoundApproval owner dispatched v)
    (hentry : v.entry.Wanes entry) : SoundApproval owner dispatched { v with entry := entry } where
  blocked i deadline hopen := (h.blocked i deadline hopen).wanes hentry
  single := h.single
  timely := h.timely
  granted c hc := h.granted c (hentry.correlation hc)
  spent hspent := hentry.correlation_eq_none (h.spent hspent)
  once := h.once
  redeemed := h.redeemed

theorem SoundApproval.moves (h : SoundApproval owner dispatched v)
    (hopen : ∀ j deadline, IsOpen (Function.update v.phases i (some phase)) j deadline →
      IsOpen v.phases j deadline)
    (hkeeps : KeepsSettled v.phases (Function.update v.phases i (some phase)))
    (htimely : phase.Timely) :
    SoundApproval owner dispatched
      { v with phases := Function.update v.phases i (some phase) } where
  blocked j deadline hj := h.blocked j deadline (hopen j deadline hj)
  single j k d e hj hk := h.single j k d e (hopen j d hj) (hopen k e hk)
  timely := forall_phase_update h.timely htimely
  granted c hc := (h.granted c hc).mono hkeeps
  spent := h.spent
  once := h.once
  redeemed := h.redeemed_mono hkeeps

theorem SoundApproval.quiet (h : SoundApproval owner dispatched v)
    (hphase : v.phases i = some before) (hquiet : before.Quiet after) :
    SoundApproval owner dispatched
      { v with phases := Function.update v.phases i (some after) } := by
  refine h.moves (fun j deadline hj => ?_) (keepsSettled_of_quiet hphase hquiet)
    (hquiet.timely (h.timely i before hphase))
  rcases isOpen_update hj with ⟨rfl, hopen⟩ | ⟨-, hopen⟩
  · exact ⟨before, hphase, hquiet.openDeadline_eq ▸ hopen⟩
  · exact hopen

theorem SoundApproval.not_isOpen (h : SoundApproval owner dispatched v)
    (hentry : v.entry = ⟨some c, none⟩) (hclaimable : c.resolvedApprover = none) (i deadline : ℕ) :
    ¬ IsOpen v.phases i deadline := by
  intro hopen
  have hblocked := h.blocked i deadline hopen
  rw [hentry] at hblocked
  rcases hblocked with h | h | h | ⟨c', approver, h, hresolved⟩
  · cases h
  · cases h
  · cases h
  · cases h
    rw [hclaimable] at hresolved
    cases hresolved

/-- A check that takes or settles the claim on an approval is the only one that has it after that.
-/
theorem SoundApproval.claims (h : SoundApproval owner dispatched v)
    (hphase : v.phases i = some before) (hunsettled : before.isSettled = false)
    (hcorrelation : v.entry.correlation = some c) (htimely : phase.Timely)
    (honly : ∀ j d, IsOpen (Function.update v.phases i (some phase)) j d → j = i ∧ entry.Blocked (owner j) d)
    (hgranted : ∀ c', entry.correlation = some c' →
      Granted dispatched (Function.update v.phases i (some phase)) c') :
    SoundApproval owner dispatched
      { v with phases := Function.update v.phases i (some phase), entry := entry } where
  blocked j d hj := (honly j d hj).2
  single j k d e hj hk := (honly j d hj).1.trans (honly k e hk).1.symm
  timely := forall_phase_update h.timely htimely
  granted := hgranted
  spent hspent := by
    rw [h.spent hspent] at hcorrelation
    cases hcorrelation
  once := h.once
  redeemed := h.redeemed_mono (keepsSettled_of_not_isSettled hphase hunsettled)

theorem SoundApproval.settling (h : SoundApproval owner dispatched v) {settlement : PollSettlement}
    (hphase : v.phases i = some (.settling deadline settlement reply))
    (hentry : v.entry = ⟨some c, some (.inFlight (owner i) found)⟩) :
    found = deadline ∧ ∀ j d, IsOpen v.phases j d → j = i := by
  have hopen : IsOpen v.phases i deadline := ⟨_, hphase, rfl⟩
  have hblocked := h.blocked i deadline hopen
  rw [hentry] at hblocked
  refine ⟨?_, fun j d hj => h.single j i d deadline hj hopen⟩
  rcases hblocked with hgone | huncertain | howned | ⟨_, _, hresolved, -⟩
  · cases hgone
  · cases huncertain
  · cases howned
    rfl
  · cases hresolved

theorem SoundApproval.step (h : SoundApproval owner dispatched v) (hstep : ViewStep owner v w) :
    SoundApproval owner dispatched w := by
  cases hstep with
  | fades after hentry => exact h.fades (.fades hentry)
  | begins i phase hnew hsent =>
    refine h.moves (fun j deadline hj => ?_) (keepsSettled_update fun p hp => ?_)
      (CheckPhase.timely_of_not_isSettled (CheckPhase.not_isSettled_of_unsent hsent))
    · rcases isOpen_update hj with ⟨-, hopen⟩ | ⟨-, hopen⟩
      · rw [CheckPhase.openDeadline_of_unsent hsent] at hopen
        cases hopen
      · exact hopen
    · rw [hnew] at hp
      cases hp
  | quiet i before after entry hphase hquiet hentry =>
    exact (h.quiet hphase hquiet).fades hentry
  | acquires i c deadline hphase hentry hclaimable =>
    have hcorrelation : v.entry.correlation = some c := by rw [hentry]
    refine h.claims hphase rfl hcorrelation trivial (fun j d hj => ?_) fun c' hc' => ?_
    · rcases isOpen_update hj with ⟨rfl, hopen⟩ | ⟨-, hopen⟩
      · cases hopen
        exact ⟨rfl, .inr (.inr (.inl rfl))⟩
      · exact absurd hopen (h.not_isOpen hentry hclaimable j d)
    · cases hc'
      exact (h.granted c hcorrelation).mono (keepsSettled_of_not_isSettled hphase rfl)
  | releases i c deadline found instant reply hphase hentry hlease =>
    obtain ⟨rfl, honly⟩ := h.settling hphase hentry
    have hcorrelation : v.entry.correlation = some c := by rw [hentry]
    refine h.claims hphase rfl hcorrelation hlease (fun j d hj => ?_) fun c' hc' => ?_
    · rcases isOpen_update hj with ⟨-, hopen⟩ | ⟨hij, hopen⟩
      · cases hopen
      · exact absurd (honly j d hopen) hij
    · cases hc'
      exact (h.granted c hcorrelation).mono (keepsSettled_of_not_isSettled hphase rfl)
  | completes i c deadline found instant approver reply hphase hentry hlease =>
    obtain ⟨rfl, honly⟩ := h.settling hphase hentry
    have hcorrelation : v.entry.correlation = some c := by rw [hentry]
    refine h.claims hphase rfl hcorrelation hlease (fun j d hj => ?_) fun c' hc' => ?_
    · refine ⟨?_, .inr (.inr (.inr ⟨_, approver, rfl, rfl⟩))⟩
      rcases isOpen_update hj with ⟨hij, -⟩ | ⟨-, hopen⟩
      · exact hij
      · exact honly j d hopen
    · cases hc'
      refine ⟨?_, fun name hname => ?_⟩
      · rw [(h.granted c hcorrelation).binding]
      · cases hname
        exact ⟨i, found, instant, reply, Function.update_self ..⟩
  | redeems r approver hentry hbound hresolved =>
    have hfirst : v.redeemed = [] := by
      by_contra hspent
      rw [h.spent hspent] at hentry
      cases hentry
    refine ⟨fun _ _ _ => .inl rfl, h.single, h.timely, fun c hc => (by cases hc), fun _ => rfl,
      by simp [hfirst], fun r' hr' => ?_⟩
    rw [hfirst, List.mem_singleton] at hr'
    rw [hr']
    exact ⟨h.granted _ hentry, hbound, by rw [hresolved]; rfl⟩

theorem ViewStep.claimable (hstep : ViewStep owner v w) (hafter : w.phases i = some phase)
    (hpolling : phase.isPolling = true) (hbefore : ∀ p, v.phases i = some p → p.isPolling = false) :
    ∃ c, v.entry = ⟨some c, none⟩ ∧ c.resolvedApprover = none := by
  -- a phase that was there before the step was not polling
  have hold : v.phases i ≠ some phase := fun h => by
    rw [hbefore phase h] at hpolling
    cases hpolling
  have hupdate : ∀ {k p}, Function.update v.phases k (some p) i = some phase → i = k ∧ p = phase :=
    fun hupdated => (phase_update hupdated).elim (fun h => ⟨h.1, h.2.symm⟩)
      fun h => absurd h.2 hold
  cases hstep with
  | acquires k c deadline hphase hentry hclaimable => exact ⟨c, hentry, hclaimable⟩
  | fades after hentry => exact absurd hafter hold
  | redeems r approver hentry hbound hresolved => exact absurd hafter hold
  | begins k p hnew hsent =>
    obtain ⟨-, rfl⟩ := hupdate hafter
    obtain ⟨deadline, hopen⟩ := CheckPhase.openDeadline_of_isPolling hpolling
    rw [CheckPhase.openDeadline_of_unsent hsent] at hopen
    cases hopen
  | quiet k p after entry hphase hquiet hentry =>
    obtain ⟨rfl, rfl⟩ := hupdate hafter
    rcases hquiet with rfl | ⟨-, -, -, hquiet⟩
    · exact absurd hphase hold
    · rw [hquiet] at hpolling
      cases hpolling
  | releases k c deadline found instant reply hphase hentry hlease =>
    obtain ⟨-, rfl⟩ := hupdate hafter
    cases hpolling
  | completes k c deadline found instant approver reply hphase hentry hlease =>
    obtain ⟨-, rfl⟩ := hupdate hafter
    cases hpolling

theorem SoundApproval.released_of_polls (h : SoundApproval owner dispatched v)
    (hstep : ViewStep owner v w) {polled : CheckPhase} (hafter : w.phases i = some phase)
    (hpolling : phase.isPolling = true) (hbefore : ∀ p, v.phases i = some p → p.isPolling = false)
    (hpolled : v.phases j = some polled) (hsent : polled.sentDeadline = some deadline) :
    ∃ instant reply, instant < deadline ∧ polled = .ended (.released deadline instant) reply := by
  obtain ⟨c, hentry, hclaimable⟩ := hstep.claimable hafter hpolling hbefore
  rcases CheckPhase.openDeadline_or_released hsent with hopen | ⟨instant, reply, rfl⟩
  · exact absurd ⟨polled, hpolled, hopen⟩ (h.not_isOpen hentry hclaimable j deadline)
  · exact ⟨instant, reply, h.timely j _ hpolled, rfl⟩

/-- What holds for an id that was never dispatched. -/
structure Undispatched (v : ApprovalView) : Prop where
  absent : v.entry.correlation = none
  unsent : ∀ i phase, v.phases i = some phase → phase.sentDeadline = none
  unredeemed : v.redeemed = []

theorem Undispatched.step (h : Undispatched v) (hstep : ViewStep owner v w) : Undispatched w := by
  have habsent := h.absent
  cases hstep with
  | fades after hentry =>
    exact ⟨Wanes.correlation_eq_none (.fades hentry) habsent, h.unsent, h.unredeemed⟩
  | begins i phase hnew hsent => exact ⟨habsent, forall_phase_update h.unsent hsent, h.unredeemed⟩
  | quiet i before after entry hphase hquiet hentry =>
    have hsent : after.sentDeadline = none :=
      hquiet.sentDeadline_eq.trans (h.unsent i before hphase)
    exact ⟨hentry.correlation_eq_none habsent, forall_phase_update h.unsent hsent, h.unredeemed⟩
  | acquires _ _ _ _ hentry | releases _ _ _ _ _ _ _ hentry | completes _ _ _ _ _ _ _ _ hentry
  | redeems _ _ hentry =>
    rw [hentry] at habsent
    cases habsent

theorem Undispatched.dispatch (h : Undispatched v) (hresolved : dispatched.resolvedApprover = none) :
    SoundApproval owner dispatched { v with entry := ⟨some dispatched, none⟩ } := by
  have hnone : ∀ i d, ¬ IsOpen v.phases i d := by
    rintro i d ⟨phase, hphase, hopen⟩
    rw [CheckPhase.openDeadline_of_unsent (h.unsent i phase hphase)] at hopen
    cases hopen
  exact
    { blocked := fun i d hi => absurd hi (hnone i d)
      single := fun i j d e hi _ => absurd hi (hnone i d)
      timely := fun i phase hphase => CheckPhase.timely_of_not_isSettled
        (CheckPhase.not_isSettled_of_unsent (h.unsent i phase hphase))
      granted := fun c hc => by
        cases hc
        exact ⟨rfl, fun name hname => by rw [hresolved] at hname; cases hname⟩
      spent := fun hspent => absurd h.unredeemed hspent
      once := by simp [h.unredeemed]
      redeemed := fun r hr => by
        rw [h.unredeemed] at hr
        cases hr }

end Soundness

end PraxisPolicy
