import PraxisPolicy.HashMaps

/-!
# The correlation store of backchannel approvals

Next to an approval stands the claim of the one caller that may poll the provider.  A claim whose
outcome is unknown blocks the id for good.
-/

namespace PraxisPolicy

open HashMaps

structure Correlation where
  expectedApprover : String
  resolvedApprover : Option String
  routeKey : String
  tool : String
  requester : String
  /-- Nanoseconds of UTC. -/
  expiresAt : ℤ
  deriving DecidableEq

inductive TakeResult where
  | missing
  | bindingMismatch
  | pending
  | ready (correlation : Correlation)
  deriving DecidableEq

def TakeResult.taken : TakeResult → Option Correlation
  | .ready c => some c
  | _ => none

inductive PollClaim where
  | acquired
  | busy
  | resolved
  | missing
  | bindingMismatch
  | uncertain
  deriving DecidableEq

structure StoreError where
  message : String
  deriving DecidableEq

inductive MemoryPoll where
  | inFlight (owner : String) (deadline : ℕ)
  | uncertain
  deriving DecidableEq

/-- The two clocks an operation reads: `Utc::now` and `Instant::now`, in nanoseconds. -/
structure Clock where
  utc : ℤ
  instant : ℕ

/-- Whole seconds are held in 64 signed bits. -/
def instantMax : ℕ := (2 ^ 63 - 1) * 1000000000 + 999999999

def instantCheckedAdd (instant lease : ℕ) : Option ℕ :=
  if instant + lease ≤ instantMax then some (instant + lease) else none

def Correlation.boundTo (c : Correlation) (routeKey tool requester : String) : Bool :=
  c.routeKey == routeKey && c.tool == tool && c.requester == requester

theorem Correlation.boundTo_iff {c : Correlation} {routeKey tool requester : String} :
    c.boundTo routeKey tool requester = true ↔
      c.routeKey = routeKey ∧ c.tool = tool ∧ c.requester = requester := by
  simp [boundTo, and_assoc]

structure MemoryState where
  correlations : HashMap String Correlation
  polls : HashMap String MemoryPoll

namespace MemoryState

def empty : MemoryState := ⟨∅, ∅⟩

def retainLive (state : MemoryState) (now : Clock) : MemoryState :=
  let correlations := retainValues (fun c => decide (now.utc < c.expiresAt)) state.correlations
  { correlations := correlations
    polls := retain (fun id => (correlations.lookup id).isSome) state.polls }

def requireOwner (state : MemoryState) (id owner : String) (now : Clock) :
    Except StoreError Unit :=
  match state.polls.lookup id with
  | some (.inFlight current deadline) =>
    if current = owner ∧ now.instant < deadline then .ok ()
    else .error ⟨"poll claim is no longer owned"⟩
  | _ => .error ⟨"poll claim is no longer owned"⟩

def put (state : MemoryState) (id : String) (correlation : Correlation) (now : Clock) :
    MemoryState :=
  let state := state.retainLive now
  { polls := state.polls.erase id
    correlations := state.correlations.insert id correlation }

def get (state : MemoryState) (id : String) (now : Clock) : Option Correlation × MemoryState :=
  let state := state.retainLive now
  (state.correlations.lookup id, state)

def claimStanding (state : MemoryState) (id owner : String) (lease : ℕ) (now : Clock) :
    Except StoreError PollClaim × MemoryState :=
  match state.polls.lookup id with
  | some .uncertain => (.ok .uncertain, state)
  | some (.inFlight _ deadline) =>
    if deadline ≤ now.instant then
      (.ok .uncertain, { state with polls := state.polls.insert id .uncertain })
    else (.ok .busy, state)
  | none =>
    match instantCheckedAdd now.instant lease with
    | none => (.error ⟨"poll lease is too large"⟩, state)
    | some deadline =>
      (.ok .acquired, { state with polls := state.polls.insert id (.inFlight owner deadline) })

def claimPoll (state : MemoryState) (id owner : String) (lease : ℕ)
    (routeKey tool requester : String) (now : Clock) :
    Except StoreError PollClaim × MemoryState :=
  let state := state.retainLive now
  match state.correlations.lookup id with
  | none => (.ok .missing, state)
  | some correlation =>
    if !correlation.boundTo routeKey tool requester then (.ok .bindingMismatch, state)
    else if correlation.resolvedApprover.isSome then (.ok .resolved, state)
    else state.claimStanding id owner lease now

def releasePoll (state : MemoryState) (id owner : String) (now : Clock) :
    Except StoreError Unit × MemoryState :=
  let state := state.retainLive now
  match state.requireOwner id owner now with
  | .error e => (.error e, state)
  | .ok () => (.ok (), { state with polls := state.polls.erase id })

def completePoll (state : MemoryState) (id owner approver : String) (now : Clock) :
    Except StoreError Unit × MemoryState :=
  let state := state.retainLive now
  match state.requireOwner id owner now with
  | .error e => (.error e, state)
  | .ok () =>
    match state.correlations.lookup id with
    | none => (.error ⟨"poll correlation expired"⟩, state)
    | some correlation =>
      (.ok (),
        { correlations :=
            state.correlations.insert id { correlation with resolvedApprover := some approver }
          polls := state.polls.erase id })

def abandonPoll (state : MemoryState) (id owner : String) (now : Clock) :
    Except StoreError Unit × MemoryState :=
  let state := state.retainLive now
  match state.requireOwner id owner now with
  | .error e => (.error e, state)
  | .ok () => (.ok (), { state with polls := state.polls.insert id .uncertain })

def takeIfReady (state : MemoryState) (id routeKey tool requester : String) (now : Clock) :
    TakeResult × MemoryState :=
  let state := state.retainLive now
  match state.correlations.lookup id with
  | none => (.missing, state)
  | some c =>
    if !c.boundTo routeKey tool requester then (.bindingMismatch, state)
    else if c.resolvedApprover.isNone then (.pending, state)
    else
      (.ready c,
        { polls := state.polls.erase id, correlations := state.correlations.erase id })

end MemoryState

/-! ## What an operation does to one id -/

/-- What the store holds for one id. -/
structure ApprovalEntry where
  correlation : Option Correlation
  poll : Option MemoryPoll

namespace ApprovalEntry

def gone : ApprovalEntry := ⟨none, none⟩

/-- An entry is left alone or dropped whole. -/
def Fades (before after : ApprovalEntry) : Prop := after = before ∨ after = gone

end ApprovalEntry

namespace MemoryState

open ApprovalEntry

def entry (state : MemoryState) (id : String) : ApprovalEntry :=
  ⟨state.correlations.lookup id, state.polls.lookup id⟩

theorem entry_insert_poll (state : MemoryState) (id : String) (poll : MemoryPoll) :
    ({ state with polls := state.polls.insert id poll }).entry id =
      ⟨(state.entry id).correlation, some poll⟩ := by
  simp [entry]

theorem entry_erase_poll (state : MemoryState) (id : String) :
    ({ state with polls := state.polls.erase id }).entry id =
      ⟨(state.entry id).correlation, none⟩ := by
  simp [entry]

theorem entry_retainLive (state : MemoryState) (now : Clock) (id : String) :
    ((state.retainLive now).entry id) =
      if ((state.entry id).correlation.filter fun c => decide (now.utc < c.expiresAt)).isSome
      then state.entry id else gone := by
  simp only [entry, retainLive, lookup_retain, lookup_retainValues]
  obtain hc | ⟨c, hc⟩ := Option.eq_none_or_eq_some (state.correlations.lookup id)
  · simp [hc, gone]
  · by_cases hlive : now.utc < c.expiresAt
    · simp [hc, hlive]
    · simp [hc, hlive, gone]
      exact not_lt.mp hlive

theorem fades_retainLive (state : MemoryState) (now : Clock) (id : String) :
    (state.entry id).Fades ((state.retainLive now).entry id) := by
  rw [entry_retainLive]
  split_ifs
  · exact .inl rfl
  · exact .inr rfl

section OtherIds

variable {id other : String} (state : MemoryState) (now : Clock)

theorem entry_put_ne (h : id ≠ other) (c : Correlation) :
    (state.put other c now).entry id = (state.retainLive now).entry id := by
  simp [put, entry, Finmap.lookup_insert_of_ne _ h, Finmap.lookup_erase_ne h]

theorem entry_claimPoll_ne (h : id ≠ other) (owner : String) (lease : ℕ)
    (routeKey tool requester : String) :
    (state.claimPoll other owner lease routeKey tool requester now).2.entry id =
      (state.retainLive now).entry id := by
  unfold claimPoll claimStanding
  dsimp only
  repeat' split
  all_goals simp [entry, Finmap.lookup_insert_of_ne _ h]

theorem entry_takeIfReady_ne (h : id ≠ other) (routeKey tool requester : String) :
    (state.takeIfReady other routeKey tool requester now).2.entry id =
      (state.retainLive now).entry id := by
  unfold takeIfReady
  dsimp only
  repeat' split
  all_goals simp [entry, Finmap.lookup_erase_ne h]

end OtherIds

section OwnId

variable (state : MemoryState) (id owner : String) (now : Clock)

theorem entry_put (c : Correlation) : (state.put id c now).entry id = ⟨some c, none⟩ := by
  simp [put, entry]

inductive ClaimEffect (lease : ℕ) (routeKey tool requester : String) (found : ApprovalEntry) :
    Except StoreError PollClaim → ApprovalEntry → Prop
  | refused (result : Except StoreError PollClaim) (h : result ≠ .ok .acquired) :
      ClaimEffect lease routeKey tool requester found result found
  | expired (c : Correlation) (holder : String) (deadline : ℕ)
      (h : found = ⟨some c, some (.inFlight holder deadline)⟩) :
      ClaimEffect lease routeKey tool requester found (.ok .uncertain)
        ⟨some c, some .uncertain⟩
  | acquired (c : Correlation) (h : found = ⟨some c, none⟩)
      (hbound : c.boundTo routeKey tool requester = true) (hopen : c.resolvedApprover = none) :
      ClaimEffect lease routeKey tool requester found (.ok .acquired)
        ⟨some c, some (.inFlight owner (now.instant + lease))⟩

theorem claimPoll_effect (lease : ℕ) (routeKey tool requester : String) :
    ClaimEffect owner now lease routeKey tool requester ((state.retainLive now).entry id)
      (state.claimPoll id owner lease routeKey tool requester now).1
      ((state.claimPoll id owner lease routeKey tool requester now).2.entry id) := by
  unfold claimPoll
  dsimp only
  split
  case h_1 => exact .refused _ (by simp)
  case h_2 c hc =>
    split_ifs with hbound hresolved
    · exact .refused _ (by simp)
    · exact .refused _ (by simp)
    · have hfound : (state.retainLive now).entry id =
          ⟨some c, (state.retainLive now).polls.lookup id⟩ := by rw [← hc]; rfl
      unfold claimStanding
      split
      case h_1 => exact .refused _ (by simp)
      case h_2 holder deadline hpoll =>
        split_ifs
        · rw [hpoll] at hfound
          rw [entry_insert_poll, hfound]
          exact .expired c holder deadline rfl
        · exact .refused _ (by simp)
      case h_3 hpoll =>
        unfold instantCheckedAdd
        split_ifs
        · rw [hpoll] at hfound
          dsimp only
          rw [entry_insert_poll, hfound]
          exact .acquired c rfl (by simpa using hbound) (by simpa using hresolved)
        · exact .refused _ (by simp)

/-- `settled`: what is left of the approval when the claim is still owned. -/
inductive SettleEffect (settled : Correlation → ApprovalEntry) (found : ApprovalEntry) :
    Except StoreError Unit → ApprovalEntry → Prop
  | refused (e : StoreError) : SettleEffect settled found (.error e) found
  | owned (c : Correlation) (deadline : ℕ) (h : found = ⟨some c, some (.inFlight owner deadline)⟩)
      (hlease : now.instant < deadline) : SettleEffect settled found (.ok ()) (settled c)

theorem entry_of_requireOwner
    (h : (state.retainLive now).requireOwner id owner now = .ok ()) :
    ∃ c deadline, now.instant < deadline ∧
      (state.retainLive now).entry id = ⟨some c, some (.inFlight owner deadline)⟩ := by
  unfold requireOwner at h
  split at h
  case h_1 current deadline hpoll =>
    split_ifs at h with howned
    obtain ⟨rfl, hlease⟩ := howned
    -- A claim is kept only next to its approval.
    have hentry := entry_retainLive state now id
    split_ifs at hentry with hlive
    · obtain ⟨c, hc⟩ := Option.isSome_iff_exists.mp hlive
      refine ⟨c, deadline, hlease, ?_⟩
      rw [← hpoll, ← (Option.filter_eq_some_iff.mp hc).1, ← hentry]
      rfl
    · cases hpoll.symm.trans (congrArg ApprovalEntry.poll hentry)
  case h_2 => cases h

inductive TakeEffect (routeKey tool requester : String) (found : ApprovalEntry) :
    TakeResult → ApprovalEntry → Prop
  | refused (result : TakeResult) (h : result.taken = none) :
      TakeEffect routeKey tool requester found result found
  | ready (c : Correlation) (approver : String) (h : found.correlation = some c)
      (hbound : c.boundTo routeKey tool requester = true)
      (hresolved : c.resolvedApprover = some approver) :
      TakeEffect routeKey tool requester found (.ready c) gone

theorem takeIfReady_effect (routeKey tool requester : String) :
    TakeEffect routeKey tool requester ((state.retainLive now).entry id)
      (state.takeIfReady id routeKey tool requester now).1
      ((state.takeIfReady id routeKey tool requester now).2.entry id) := by
  unfold takeIfReady
  dsimp only
  split
  case h_1 => exact .refused _ rfl
  case h_2 c hc =>
    split_ifs with hbound hresolved
    · exact .refused _ rfl
    · exact .refused _ rfl
    · obtain ⟨approver, happrover⟩ := Option.ne_none_iff_exists'.mp (by simpa using hresolved)
      simp only [entry, Finmap.lookup_erase]
      exact .ready c approver hc (by simpa using hbound) happrover

end OwnId

end MemoryState

end PraxisPolicy
