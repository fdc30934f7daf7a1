import PraxisPolicy.ApprovalProtocol
import PraxisPolicy.StepRuns

/-!
# One approval, one poll, one redemption

Every step of every call is a step of the protocol on the id it concerns, so what the protocol
keeps holds in every run.
-/

namespace PraxisPolicy

open StepRuns ApprovalEntry MemoryState

variable (approver : CibaApprover) (owner : ℕ → String)

def CheckCall.isOn (c : CheckCall) (id : String) : Bool :=
  decide (c.payload.elicitationId = some id)

def CheckCall.phaseOn (c : CheckCall) (id : String) : Option CheckPhase :=
  if c.isOn id then some c.phase else none

theorem CheckCall.phaseOn_eq {c : CheckCall} {id : String} {on : Bool} (h : c.isOn id = on)
    (phase : CheckPhase) :
    ({ c with phase := phase } : CheckCall).phaseOn id = if on then some phase else none := by
  rw [← h]
  rfl

def ApprovalState.view (s : ApprovalState) (id : String) : ApprovalView where
  phases i := s.calls[i]?.bind fun c => c.phaseOn id
  entry := s.store.entry id
  redeemed := s.redeemed.filter fun r => decide (r.payload.elicitationId = some id)

def ApprovalEvent.dispatches (id : String) : ApprovalEvent → Bool
  | .dispatch other _ _ _ => decide (other = id)
  | _ => false

section Phases

variable {owner : ℕ → String} {v : ApprovalView} {i : ℕ} {payload : ElicitationPayload}
  {deadline : ℕ} {result : Except StoreError PollClaim} {found after : ApprovalEntry}

theorem afterError_quiet {before : CheckPhase}
    (hsent : before.sentDeadline = some deadline) (hbefore : before.isSettled = false)
    (status : ℕ) (code : String) :
    before.Quiet (CibaApprover.afterError payload deadline status code) := by
  refine .inr ?_
  unfold CibaApprover.afterError
  split_ifs
  all_goals exact ⟨hsent.symm, hbefore, rfl, rfl⟩

theorem afterClaim_quiet (h : result ≠ .ok .acquired) :
    CheckPhase.matched.Quiet (CibaApprover.afterClaim payload deadline result) := by
  refine .inr ?_
  unfold CibaApprover.afterClaim
  split
  case h_1 => exact absurd rfl h
  all_goals exact ⟨rfl, rfl, rfl, rfl⟩

theorem viewStep_claim {now : Clock} {lease : ℕ} (hphase : v.phases i = some .matched)
    (hfound : v.entry.Fades found)
    (h : ClaimEffect (owner i) now lease payload.routeKey payload.tool payload.requester found
      result after) :
    ViewStep owner v
      { v with
        phases := Function.update v.phases i
          (some (CibaApprover.afterClaim payload (now.instant + lease) result))
        entry := after } := by
  cases h with
  | refused _ hrefused =>
    exact .quiet i _ _ found hphase (afterClaim_quiet hrefused) (.fades hfound)
  | expired c holder deadline hentry =>
    rcases hfound with rfl | rfl
    · exact .quiet i _ _ _ hphase (afterClaim_quiet (by simp)) (hentry ▸ .marked c holder deadline)
    · cases hentry
  | acquired c hentry hbound hopen =>
    rcases hfound with rfl | rfl
    · exact .acquires i c _ hphase hentry hopen
    · cases hentry

def PollSettlement.leaves : PollSettlement → Correlation → ApprovalEntry
  | .release, c => ⟨some c, none⟩
  | .complete approver, c => ⟨some { c with resolvedApprover := some approver }, none⟩
  | .abandon, c => ⟨some c, some .uncertain⟩

theorem perform_effect (settlement : PollSettlement) (store : MemoryState) (id owner : String)
    (now : Clock) :
    SettleEffect owner now settlement.leaves ((store.retainLive now).entry id)
      (settlement.perform store id owner now).1
      ((settlement.perform store id owner now).2.entry id) := by
  cases settlement with
  | release =>
    unfold PollSettlement.perform releasePoll
    dsimp only
    split
    case h_1 e _ => exact .refused e
    case h_2 hok =>
      obtain ⟨c, deadline, hlease, hfound⟩ := entry_of_requireOwner store id owner now hok
      rw [entry_erase_poll, hfound]
      exact .owned c deadline rfl hlease
  | complete approver =>
    unfold PollSettlement.perform completePoll
    dsimp only
    split
    case h_1 e _ => exact .refused e
    case h_2 hok =>
      obtain ⟨c, deadline, hlease, hfound⟩ := entry_of_requireOwner store id owner now hok
      have hc : (store.retainLive now).correlations.lookup id = some c :=
        congrArg ApprovalEntry.correlation hfound
      rw [hc, hfound]
      simp only [entry, Finmap.lookup_insert, Finmap.lookup_erase]
      exact .owned c deadline rfl hlease
  | abandon =>
    unfold PollSettlement.perform abandonPoll
    dsimp only
    split
    case h_1 e _ => exact .refused e
    case h_2 hok =>
      obtain ⟨c, deadline, hlease, hfound⟩ := entry_of_requireOwner store id owner now hok
      rw [entry_insert_poll, hfound]
      exact .owned c deadline rfl hlease

theorem viewStep_settle {now : Clock} {settlement : PollSettlement}
    {reply : ElicitationReply} {result : Except StoreError Unit}
    (hphase : v.phases i = some (.settling deadline settlement reply))
    (hfound : v.entry.Fades found)
    (h : SettleEffect (owner i) now settlement.leaves found result after) :
    ViewStep owner v
      { v with
        phases := Function.update v.phases i
          (some (afterSettlement deadline now.instant settlement reply result))
        entry := after } := by
  cases h with
  | refused e =>
    exact .quiet i _ _ found hphase (.inr ⟨rfl, rfl, rfl, rfl⟩) (.fades hfound)
  | owned c held hentry hlease =>
    rcases hfound with rfl | rfl
    · cases settlement with
      | release => exact .releases i c deadline held now.instant reply hphase hentry hlease
      | complete approver =>
        exact .completes i c deadline held now.instant approver reply hphase hentry hlease
      | abandon =>
        exact .quiet i _ _ _ hphase (.inr ⟨rfl, rfl, rfl, rfl⟩)
          (hentry ▸ .marked c (owner i) held)
    · cases hentry

end Phases

namespace ApprovalState

variable {s : ApprovalState} {id : String} {i : ℕ} {c : CheckCall} {phase : CheckPhase}

theorem phases_of_isOn (hc : s.calls[i]? = some c) (hon : c.isOn id = true) :
    (s.view id).phases i = some c.phase := by
  simp [view, hc, CheckCall.phaseOn, hon]

theorem getElem?_setPhase (hc : s.calls[i]? = some c) (phase : CheckPhase) :
    (s.setPhase i c phase).calls[i]? = some { c with phase := phase } :=
  List.getElem?_set_self (List.getElem?_eq_some_iff.mp hc).1

theorem phases_setPhase (id : String) (hc : s.calls[i]? = some c) (phase : CheckPhase) :
    ((s.setPhase i c phase).view id).phases =
      Function.update (s.view id).phases i (({ c with phase := phase } : CheckCall).phaseOn id) := by
  funext j
  by_cases hij : j = i
  · subst hij
    rw [Function.update_self]
    simp only [view, getElem?_setPhase hc, Option.bind_some]
  · rw [Function.update_of_ne hij]
    simp only [view, setPhase, List.getElem?_set_ne (Ne.symm hij)]

theorem view_setPhase_of_isOn (hc : s.calls[i]? = some c) (hon : c.isOn id = true)
    (phase : CheckPhase) :
    (s.setPhase i c phase).view id =
      { s.view id with phases := Function.update (s.view id).phases i (some phase) } := by
  have hphases := phases_setPhase id hc phase
  rw [CheckCall.phaseOn_eq hon] at hphases
  exact congrArg (fun phases => { s.view id with phases := phases }) hphases

theorem view_setPhase_of_not_isOn (hc : s.calls[i]? = some c) (hon : c.isOn id = false)
    (phase : CheckPhase) : (s.setPhase i c phase).view id = s.view id := by
  have hphases := phases_setPhase id hc phase
  have hnone : (s.view id).phases i = none := by simp [view, hc, CheckCall.phaseOn, hon]
  rw [CheckCall.phaseOn_eq hon, if_neg Bool.false_ne_true, ← hnone, Function.update_eq_self]
    at hphases
  exact congrArg (fun phases => { s.view id with phases := phases }) hphases

theorem view_withStore (s : ApprovalState) (store : MemoryState) (id : String) :
    ({ s with store := store } : ApprovalState).view id =
      { s.view id with entry := store.entry id } := rfl

theorem viewStep_refl {v : ApprovalView} : ViewStep owner v v := .fades v.entry (.inl rfl)

theorem viewStep_check (payload : ElicitationPayload) :
    ViewStep owner (s.view id)
      (({ s with calls := s.calls ++ [beginCheck payload] } : ApprovalState).view id) := by
  have hphases : (({ s with calls := s.calls ++ [beginCheck payload] } : ApprovalState).view
      id).phases =
      Function.update (s.view id).phases s.calls.length ((beginCheck payload).phaseOn id) := by
    funext j
    rcases lt_trichotomy j s.calls.length with hj | rfl | hj
    · rw [Function.update_of_ne hj.ne]
      simp only [view, List.getElem?_append_left hj]
    · simp [view]
    · rw [Function.update_of_ne hj.ne']
      simp only [view]
      rw [List.getElem?_eq_none (by simp; omega), List.getElem?_eq_none hj.le]
  have hnew : (s.view id).phases s.calls.length = none := by simp [view]
  have hview : (({ s with calls := s.calls ++ [beginCheck payload] } : ApprovalState).view id) =
      { s.view id with
        phases := Function.update (s.view id).phases s.calls.length
          ((beginCheck payload).phaseOn id) } :=
    congrArg (fun phases => { s.view id with phases := phases }) hphases
  rw [hview, CheckCall.phaseOn]
  split_ifs
  · refine .begins s.calls.length _ hnew ?_
    unfold beginCheck
    dsimp only
    repeat' split
    all_goals rfl
  · rw [← hnew, Function.update_eq_self]
    exact viewStep_refl owner

theorem entry_advanceCheck_ne {other own : String} (h : id ≠ other) (payload : ElicitationPayload)
    (phase : CheckPhase) (store : MemoryState) (now : Clock) :
    (store.entry id).Fades
      ((approver.advanceCheck own other payload phase store now).2.entry id) := by
  have hlive := fades_retainLive store now id
  cases phase with
  | started => exact hlive
  | matched =>
    rw [← entry_claimPoll_ne store now h own approver.lease payload.routeKey payload.tool
      payload.requester] at hlive
    exact hlive
  | rechecking deadline status => exact hlive
  | settling deadline settlement reply =>
    have hkept : (settlement.perform store other own now).2.entry id =
        (store.retainLive now).entry id := by
      cases settlement with
      | release =>
        unfold PollSettlement.perform releasePoll
        dsimp only
        split <;> simp [entry, Finmap.lookup_erase_ne h]
      | complete name =>
        unfold PollSettlement.perform completePoll
        dsimp only
        split
        · rfl
        · split <;> simp [entry, Finmap.lookup_insert_of_ne _ h, Finmap.lookup_erase_ne h]
      | abandon =>
        unfold PollSettlement.perform abandonPoll
        dsimp only
        split <;> simp [entry, Finmap.lookup_insert_of_ne _ h]
    rw [← hkept] at hlive
    exact hlive
  | polling deadline => exact .inl rfl
  | ended fate reply => exact .inl rfl

theorem viewStep_advanceCheck (hc : s.calls[i]? = some c) (hon : c.isOn id = true) (now : Clock) :
    ViewStep owner (s.view id)
      { s.view id with
        phases := Function.update (s.view id).phases i
          (some (approver.advanceCheck (owner i) id c.payload c.phase s.store now).1)
        entry := (approver.advanceCheck (owner i) id c.payload c.phase s.store now).2.entry id } := by
  have hphase := phases_of_isOn hc hon
  have hlive : (s.view id).entry.Fades ((s.store.retainLive now).entry id) :=
    fades_retainLive s.store now id
  cases hp : c.phase with rw [hp] at hphase
  | started =>
    refine .quiet i _ _ _ hphase (.inr ?_) (.fades hlive)
    simp only [CibaApprover.advanceCheck, CibaApprover.afterGet]
    repeat' split
    all_goals exact ⟨rfl, rfl, rfl, rfl⟩
  | matched =>
    exact viewStep_claim hphase hlive (claimPoll_effect s.store id (owner i) now _ _ _ _)
  | rechecking deadline status =>
    refine .quiet i _ _ _ hphase ?_ (.fades hlive)
    simp only [CibaApprover.advanceCheck, CibaApprover.afterRecheck]
    split_ifs
    · exact .inr ⟨rfl, rfl, rfl, rfl⟩
    · exact afterError_quiet rfl rfl status _
  | settling deadline settlement reply =>
    exact viewStep_settle hphase hlive (perform_effect settlement s.store id (owner i) now)
  | _ => exact .quiet i _ _ _ hphase (.inl rfl) (.fades (.inl rfl))

theorem viewStep_advance (call : ℕ) (now : Clock) :
    ViewStep owner (s.view id) ((s.advance approver owner call now).view id) := by
  unfold advance
  split
  case h_1 => exact viewStep_refl owner
  case h_2 c hc =>
    split
    case h_1 => exact viewStep_refl owner
    case h_2 other hother =>
      by_cases hid : id = other
      · subst hid
        have hon : c.isOn id = true := by simp [CheckCall.isOn, hother]
        dsimp only
        rw [view_withStore (s.setPhase call c _), view_setPhase_of_isOn hc hon]
        exact viewStep_advanceCheck approver owner hc hon now
      · have hon : c.isOn id = false := by simp [CheckCall.isOn, hother, Ne.symm hid]
        dsimp only
        rw [view_withStore (s.setPhase call c _), view_setPhase_of_not_isOn hc hon]
        exact .fades _ (entry_advanceCheck_ne approver hid c.payload c.phase s.store now)

theorem viewStep_setPhase (hc : s.calls[i]? = some c) (hquiet : c.phase.Quiet phase) :
    ViewStep owner (s.view id) ((s.setPhase i c phase).view id) := by
  cases hon : c.isOn id with
  | true =>
    rw [view_setPhase_of_isOn hc hon]
    exact .quiet i _ _ _ (phases_of_isOn hc hon) hquiet (.fades (.inl rfl))
  | false =>
    rw [view_setPhase_of_not_isOn hc hon]
    exact viewStep_refl owner

/-- A validate leaves an id to fade, or removes its approval for a payload it belongs to. -/
inductive ValidateEffect (id : String) (payload : ElicitationPayload) (before : ApprovalEntry) :
    Option Correlation → ApprovalEntry → Prop
  | fades (taken : Option Correlation) (after : ApprovalEntry) (h : before.Fades after)
      (hother : taken = none ∨ payload.elicitationId ≠ some id) :
      ValidateEffect id payload before taken after
  | redeems (c : Correlation) (name : String) (hid : payload.elicitationId = some id)
      (hfound : before.correlation = some c) (hbound : c.boundToPayload payload = true)
      (hresolved : c.resolvedApprover = some name) :
      ValidateEffect id payload before (some c) gone

theorem redeemApproval_effect {payload : ElicitationPayload} {other : String}
    (hother : payload.elicitationId = some other) (store : MemoryState) (now : Clock) :
    ValidateEffect id payload (store.entry id)
      (approver.redeemApproval payload other store now).taken
      ((approver.redeemApproval payload other store now).store.entry id) := by
  have htaken : (approver.redeemApproval payload other store now).taken =
      (store.takeIfReady other payload.routeKey payload.tool payload.requester now).1.taken := by
    unfold CibaApprover.redeemApproval
    dsimp only
    split <;> simp [*, TakeResult.taken]
  have hstore : (approver.redeemApproval payload other store now).store =
      (store.takeIfReady other payload.routeKey payload.tool payload.requester now).2 := by
    unfold CibaApprover.redeemApproval
    dsimp only
    split <;> rfl
  have hlive := fades_retainLive store now id
  rw [htaken, hstore]
  by_cases hid : id = other
  · subst hid
    have heffect := takeIfReady_effect store id now payload.routeKey payload.tool payload.requester
    revert heffect
    generalize (store.takeIfReady id payload.routeKey payload.tool payload.requester now).1 = result
    generalize (store.takeIfReady id payload.routeKey payload.tool payload.requester now).2.entry id
      = after
    intro heffect
    cases heffect with
    | refused _ hrefused => exact .fades _ _ hlive (.inl hrefused)
    | ready c name hfound hbound hresolved =>
      rcases fades_retainLive store now id with heq | hgone
      · rw [heq] at hfound
        exact .redeems c name hother hfound hbound hresolved
      · rw [hgone] at hfound
        cases hfound
  · rw [entry_takeIfReady_ne store now hid]
    exact .fades _ _ hlive (.inr (by rw [hother]; simpa using Ne.symm hid))

theorem doValidate_effect (id : String) (payload : ElicitationPayload) (store : MemoryState) (now : Clock) :
    ValidateEffect id payload (store.entry id) (approver.doValidate payload store now).taken
      ((approver.doValidate payload store now).store.entry id) := by
  unfold CibaApprover.doValidate
  split
  case h_1 => exact .fades _ _ (.inl rfl) (.inl rfl)
  case h_2 => exact .fades _ _ (.inl rfl) (.inl rfl)
  case h_3 other _ hother =>
    split_ifs
    · have hpeek : (approver.peekApproval payload other store now).store = store.retainLive now ∧
          (approver.peekApproval payload other store now).taken = none := by
        unfold CibaApprover.peekApproval
        dsimp only
        repeat' split
        all_goals exact ⟨rfl, rfl⟩
      rw [hpeek.1, hpeek.2]
      exact .fades _ _ (fades_retainLive store now id) (.inl rfl)
    · exact redeemApproval_effect approver hother store now

theorem viewStep_validate (payload : ElicitationPayload) (now : Clock) :
    ViewStep owner (s.view id) ((s.validate approver payload now).view id) := by
  have heffect := doValidate_effect approver id payload s.store now
  unfold validate
  generalize approver.doValidate payload s.store now = done at heffect ⊢
  obtain ⟨reply, taken, store⟩ := done
  dsimp only at heffect ⊢
  have hview : ({ s with
        store := store
        redeemed := (taken.map fun c => ⟨payload, c⟩).toList ++ s.redeemed } :
          ApprovalState).view id =
      { s.view id with
        entry := store.entry id
        redeemed := ((taken.map fun c => (⟨payload, c⟩ : Redemption)).toList.filter
          fun r => decide (r.payload.elicitationId = some id)) ++ (s.view id).redeemed } := by
    simp [view]
  rw [hview]
  generalize store.entry id = after at heffect
  cases heffect with
  | fades _ _ hfades hother =>
    have hnone : ((taken.map fun c => (⟨payload, c⟩ : Redemption)).toList.filter
        fun r => decide (r.payload.elicitationId = some id)) = [] := by
      rcases hother with rfl | hother
      · rfl
      · cases taken <;> simp [hother]
    rw [hnone]
    exact .fades _ hfades
  | redeems c name hid hfound hbound hresolved =>
    simp only [Option.map_some, Option.toList_some, List.filter_cons, hid, decide_true, if_true,
      List.filter_nil, List.cons_append, List.nil_append]
    exact .redeems ⟨payload, c⟩ name hfound hbound hresolved

theorem viewStep_step {e : ApprovalEvent} (h : e.dispatches id = false) :
    ViewStep owner (s.view id) ((s.step approver owner e).view id) := by
  cases e with
  | dispatch other payload expiresAt now =>
    have hne : id ≠ other := by
      rintro rfl
      simp [ApprovalEvent.dispatches] at h
    have hput : (s.store.entry id).Fades
        ((s.store.put other (dispatchedCorrelation payload expiresAt) now).entry id) := by
      rw [entry_put_ne s.store now hne]
      exact fades_retainLive s.store now id
    exact .fades _ hput
  | check payload => exact viewStep_check owner payload
  | advance call now => exact viewStep_advance approver owner call now
  | answer call a =>
    simp only [step, ApprovalState.answer]
    split
    case h_1 c hc =>
      split
      case h_1 deadline hp =>
        refine viewStep_setPhase owner hc (hp ▸ ?_)
        cases a with
        | failed e => exact .inr ⟨rfl, rfl, rfl, rfl⟩
        | response status body =>
          simp only [CibaApprover.afterAnswer]
          split_ifs
          · refine .inr ?_
            unfold CibaApprover.afterTokens
            repeat' split
            all_goals exact ⟨rfl, rfl, rfl, rfl⟩
          · exact .inr ⟨rfl, rfl, rfl, rfl⟩
          · exact afterError_quiet rfl rfl status _
      case h_2 => exact viewStep_refl owner
    case h_2 => exact viewStep_refl owner
  | cancel call =>
    simp only [step, cancel]
    split
    case h_1 c hc =>
      refine viewStep_setPhase owner hc ?_
      cases c.phase with
      | ended fate reply => exact .inl rfl
      | _ => exact .inr ⟨rfl, rfl, rfl, rfl⟩
    case h_2 => exact viewStep_refl owner
  | validate payload now => exact viewStep_validate approver owner payload now

theorem soundApproval_run (payload : ElicitationPayload) (expiresAt : ℤ) (now : Clock)
    {before after : List ApprovalEvent} (hbefore : ∀ e ∈ before, e.dispatches id = false)
    (hafter : ∀ e ∈ after, e.dispatches id = false) :
    SoundApproval owner (dispatchedCorrelation payload expiresAt)
      ((run (step approver owner) .new
        (before ++ .dispatch id payload expiresAt now :: after)).view id) := by
  have hundispatched : Undispatched ((run (step approver owner) .new before).view id) :=
    invariant_of_mem (I := fun s : ApprovalState => Undispatched (s.view id))
      (fun s e hs he => hs.step (viewStep_step approver owner (hbefore e he)))
      ⟨rfl, fun i phase h => by simp [view, ApprovalState.new] at h, rfl⟩
  rw [run_append, run_cons]
  refine invariant_of_mem (I := fun s : ApprovalState => SoundApproval owner _ (s.view id))
    (fun s e hs he => hs.step (viewStep_step approver owner (hafter e he))) ?_
  have hsound : SoundApproval owner (dispatchedCorrelation payload expiresAt)
      { (run (step approver owner) .new before).view id with
        entry := ⟨some (dispatchedCorrelation payload expiresAt), none⟩ } :=
    hundispatched.dispatch rfl
  rw [← entry_put (run (step approver owner) .new before).store id now] at hsound
  exact hsound

theorem phases_eq_some (h : (s.view id).phases i = some phase) :
    ∃ c, s.calls[i]? = some c ∧ c.isOn id = true ∧ c.phase = phase := by
  obtain ⟨c, hc, hphase⟩ := Option.bind_eq_some_iff.mp h
  unfold CheckCall.phaseOn at hphase
  split_ifs at hphase with hon
  exact ⟨c, hc, hon, Option.some.inj hphase⟩

/-- Polls of one id never overlap, none begins before the earlier ones were given back in time, and
at most one validate obtains the approval: for what was dispatched, with an approver that a check
stored while it owned the claim. -/
theorem approval_polled_and_redeemed_once (payload : ElicitationPayload) (expiresAt : ℤ)
    (now : Clock) {before after : List ApprovalEvent}
    (hbefore : ∀ e ∈ before, e.dispatches id = false)
    (hafter : ∀ e ∈ after, e.dispatches id = false) :
    let s : ApprovalState :=
      run (step approver owner) .new (before ++ .dispatch id payload expiresAt now :: after)
    (∀ (i j : ℕ) (a b : CheckCall), s.calls[i]? = some a → s.calls[j]? = some b → a.isOn id = true →
        b.isOn id = true → a.phase.isPolling = true → b.phase.isPolling = true → i = j) ∧
      (∀ (e : ApprovalEvent) (i : ℕ) (b : CheckCall), e.dispatches id = false →
        (s.step approver owner e).calls[i]? = some b →
        b.isOn id = true → b.phase.isPolling = true →
        (∀ a : CheckCall, s.calls[i]? = some a → a.phase.isPolling = false) →
        ∀ (j : ℕ) (a : CheckCall) (deadline : ℕ), s.calls[j]? = some a → a.isOn id = true →
          a.phase.sentDeadline = some deadline →
          ∃ instant reply, instant < deadline ∧
            a.phase = .ended (.released deadline instant) reply) ∧
      (s.redeemed.filter fun r => decide (r.payload.elicitationId = some id)).length ≤ 1 ∧
      ∀ r ∈ s.redeemed, r.payload.elicitationId = some id →
        (r.payload.routeKey = payload.routeKey ∧ r.payload.tool = payload.tool ∧
          r.payload.requester = payload.requester) ∧
        ∃ (name : String) (i : ℕ) (c : CheckCall) (deadline instant : ℕ)
          (reply : Option ElicitationReply), r.correlation.resolvedApprover = some name ∧
          s.calls[i]? = some c ∧ c.isOn id = true ∧
          c.phase = .ended (.completed deadline instant name) reply ∧ instant < deadline := by
  intro s
  have hsound : SoundApproval owner (dispatchedCorrelation payload expiresAt) (s.view id) :=
    soundApproval_run approver owner payload expiresAt now hbefore hafter
  refine ⟨?_, ?_, hsound.once, ?_⟩
  · intro i j a b ha hb hona honb hpa hpb
    obtain ⟨d, hd⟩ := CheckPhase.openDeadline_of_isPolling hpa
    obtain ⟨e, he⟩ := CheckPhase.openDeadline_of_isPolling hpb
    exact hsound.single i j d e ⟨_, phases_of_isOn ha hona, hd⟩ ⟨_, phases_of_isOn hb honb, he⟩
  · intro e i b he hb honb hpolling hbefore j a deadline ha hona hsent
    exact (hsound.released_of_polls (viewStep_step approver owner he) (phases_of_isOn hb honb)
      hpolling fun phase hphase => by
        obtain ⟨c, hc, -, rfl⟩ := phases_eq_some hphase
        exact hbefore c hc) (phases_of_isOn ha hona) hsent
  · intro r hr hid
    obtain ⟨hgranted, hbound, hresolved⟩ :=
      hsound.redeemed r (List.mem_filter.mpr ⟨hr, decide_eq_true hid⟩)
    obtain ⟨name, hname⟩ := Option.isSome_iff_exists.mp hresolved
    obtain ⟨i, deadline, instant, reply, hphase⟩ := hgranted.approver name hname
    have htimely := hsound.timely i _ hphase
    obtain ⟨c, hc, hon, hp⟩ := phases_eq_some hphase
    refine ⟨?_, name, i, c, deadline, instant, reply, hname, hc, hon, hp, htimely⟩
    rw [hgranted.binding] at hbound
    obtain ⟨hroute, htool, hrequester⟩ := Correlation.boundTo_iff.mp hbound
    exact ⟨hroute.symm, htool.symm, hrequester.symm⟩

end ApprovalState

def samplePayload : ElicitationPayload :=
  ⟨some "req", "alice", "tool:adjust@sandbox", "adjust", "bob", false, none, none, none, none, none⟩

def sampleApprover : CibaApprover := ⟨"manager", 1000, "sub", fun _ => none, some⟩

def sampleApproval : List ApprovalEvent :=
  [.check samplePayload, .check samplePayload, .advance 0 ⟨1, 1⟩, .advance 1 ⟨1, 2⟩,
    .advance 0 ⟨1, 3⟩, .advance 1 ⟨2, 4⟩,
    .answer 0 (.response 200 ⟨.ok ⟨some "alice", none⟩, none⟩), .advance 0 ⟨2, 5⟩,
    .validate samplePayload ⟨3, 6⟩, .validate samplePayload ⟨3, 7⟩]

theorem sampleApproval_redeemed_once :
    let s := run (ApprovalState.step sampleApprover fun _ => "owner") .new
      ([] ++ .dispatch "req" samplePayload 100 ⟨0, 0⟩ :: sampleApproval)
    s.redeemed.length = 1 ∧
      (s.redeemed.filter fun r => decide (r.payload.elicitationId = some "req")).length ≤ 1 :=
  ⟨by decide +kernel,
    (ApprovalState.approval_polled_and_redeemed_once sampleApprover (fun _ => "owner")
      samplePayload 100 ⟨0, 0⟩ (by simp) (by decide)).2.2.1⟩

end PraxisPolicy
