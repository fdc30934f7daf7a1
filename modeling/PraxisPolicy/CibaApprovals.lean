import PraxisPolicy.CorrelationStores
import PraxisPolicy.DecisionLogs
import PraxisPolicy.TextScanning

/-!
# Checking and redeeming a backchannel approval

A check stops at each store operation and at the call to the provider, whose answers are inputs.
Other calls run meanwhile, and it can be dropped wherever it stops.
-/

namespace PraxisPolicy

open HashMaps TextScanning

inductive ElicitationStatusKind where
  | pending
  | resolved
  | expired
  deriving DecidableEq

inductive ElicitationOutcomeKind where
  | approved
  | denied
  deriving DecidableEq

structure ElicitationPayload where
  elicitationId : Option String
  loginHint : String
  routeKey : String
  tool : String
  requester : String
  peek : Bool
  status : Option ElicitationStatusKind
  outcome : Option ElicitationOutcomeKind
  approver : Option String
  valid : Option Bool
  reason : Option String
  deriving DecidableEq

inductive ElicitationReply where
  | deny (violation : PluginViolation)
  | modifyPayload (payload : ElicitationPayload)

def denyElicitation (code reason : String) : ElicitationReply := .deny (.new code reason)

def storeUnavailable : ElicitationReply :=
  denyElicitation "elicitation.store_unavailable" "approval state is unavailable (fail-closed)"

def unknownId : ElicitationReply :=
  denyElicitation "elicitation.unknown_id" "unknown elicitation id"

def elicitationMismatch : ElicitationReply :=
  denyElicitation "elicitation.binding_mismatch"
    "approval belongs to another route, tool, or requester"

def approvedCheck (payload : ElicitationPayload) : ElicitationReply :=
  .modifyPayload { payload with status := some .resolved, outcome := some .approved }

def invalidElicitation (payload : ElicitationPayload) (reason : String) : ElicitationReply :=
  .modifyPayload { payload with valid := some false, reason := some reason }

def handleRefusal (payload : ElicitationPayload) : Option ElicitationReply :=
  if trim payload.routeKey = "" then
    some (denyElicitation "elicitation.bad_request"
      "CIBA approval requires a non-empty policy route")
  else if trim payload.requester = "" then
    some (denyElicitation "elicitation.bad_request"
      "CIBA approval requires a non-empty requester subject id")
  else none

inductive HttpTransportError where
  | timeout
  | connect (message : String)
  | io (message : String)
  | invalidRequest (message : String)
  | responseTooLarge (actual limit : ℕ)
  | rejected (message : String)

def HttpTransportError.mayHaveReachedPeer : HttpTransportError → Bool
  | .connect _ | .invalidRequest _ | .rejected _ => false
  | .timeout | .io _ | .responseTooLarge _ _ => true

def HttpTransportError.display : HttpTransportError → String
  | .timeout => "request timed out"
  | .connect m => "connection failed: " ++ m
  | .io m => "transport error: " ++ m
  | .invalidRequest m => "malformed request: " ++ m
  | .responseTooLarge actual limit =>
    "response body exceeded the " ++ toString limit ++ "-byte ceiling (saw at least " ++
      toString actual ++ " bytes)"
  | .rejected m => "request refused by the host: " ++ m

inductive HttpRequestError where
  | unavailable (message : String)
  | transport (error : HttpTransportError)

structure TokenResponse where
  accessToken : Option String
  idToken : Option String

/-- A token response or the reason it is none, and the `error` of an error body. -/
structure ProviderBody where
  tokens : Except String TokenResponse
  error : Option String

inductive ProviderAnswer where
  | failed (error : HttpRequestError)
  | response (status : ℕ) (body : ProviderBody)

structure RetryPolicy where
  maxAttempts : ℕ
  initialBackoff : ℕ
  maxBackoff : ℕ
  totalBudget : Option ℕ
  retryDelivered : Bool

def RetryPolicy.undeliveredOnly : RetryPolicy := ⟨3, 50000000, 500000000, none, false⟩

def durationMax : ℕ := (2 ^ 64 - 1) * 1000000000 + 999999999

def durationSaturatingMul (duration factor : ℕ) : ℕ := min (duration * factor) durationMax

def durationSaturatingAdd (a b : ℕ) : ℕ := min (a + b) durationMax

structure CibaApprover where
  name : String
  httpTimeout : ℕ
  approverClaim : String
  requestFault : String → Option PluginViolation
  /-- `decode_jwt_claim` at the configured claim. -/
  decodeApprover : String → Option String

namespace CibaApprover

variable (approver : CibaApprover)

/-- Through every attempt and every wait between them. -/
def lease : ℕ :=
  let retry := RetryPolicy.undeliveredOnly
  durationSaturatingAdd
    (durationSaturatingAdd (durationSaturatingMul approver.httpTimeout retry.maxAttempts)
      (durationSaturatingMul retry.maxBackoff (retry.maxAttempts - 1)))
    5000000000

def opViolation (what : String) : HttpRequestError → PluginViolation
  | .unavailable message =>
    .new "elicitation.no_transport" ("plugin '" ++ approver.name ++ "' " ++ message)
  | .transport (.rejected m) =>
    .new "elicitation.egress_denied"
      (what ++ " was refused before it left the process: " ++ (HttpTransportError.rejected m).display)
  | .transport e =>
    if e.mayHaveReachedPeer then
      .new "elicitation.op_timeout" (what ++ " did not complete: " ++ e.display)
    else .new "elicitation.op_unreachable" (what ++ " never reached the OP: " ++ e.display)

end CibaApprover

/-- Only a failure after which the peer may have acted leaves a poll uncertain. -/
def HttpRequestError.isUncertain : HttpRequestError → Bool
  | .unavailable _ => false
  | .transport e => e.mayHaveReachedPeer

inductive PollSettlement where
  | release
  | complete (approver : String)
  | abandon
  deriving DecidableEq

/-- `deadline` is the end of the lease it polled under, `instant` the time of the store operation.
-/
inductive PollFate where
  | unsent
  | released (deadline instant : ℕ)
  | completed (deadline instant : ℕ) (approver : String)
  | abandoned (deadline : ℕ)
  /-- Dropped on the way, or refused by the store at the end. -/
  | unsettled (deadline : ℕ)
  deriving DecidableEq

/-- Before a store operation, at the call to the provider, or over. -/
inductive CheckPhase where
  | started
  | matched
  | polling (deadline : ℕ)
  | rechecking (deadline status : ℕ)
  | settling (deadline : ℕ) (settlement : PollSettlement) (reply : ElicitationReply)
  | ended (fate : PollFate) (reply : Option ElicitationReply)

structure CheckCall where
  payload : ElicitationPayload
  phase : CheckPhase

def beginCheck (payload : ElicitationPayload) : CheckCall where
  payload := payload
  phase :=
    match handleRefusal payload, payload.elicitationId with
    | some refusal, _ => .ended .unsent (some refusal)
    | none, none =>
      .ended .unsent (some (denyElicitation "elicitation.bad_request"
        "CIBA check requires an elicitation id"))
    | none, some _ => .started

def Correlation.boundToPayload (c : Correlation) (payload : ElicitationPayload) : Bool :=
  c.boundTo payload.routeKey payload.tool payload.requester

namespace CibaApprover

variable (approver : CibaApprover)

def afterGet (payload : ElicitationPayload) (id : String) : Option Correlation → CheckPhase
  | none => .ended .unsent (some unknownId)
  | some c =>
    if !c.boundToPayload payload then .ended .unsent (some elicitationMismatch)
    else if c.resolvedApprover.isSome then .ended .unsent (some (approvedCheck payload))
    else
      match approver.requestFault id with
      | some violation => .ended .unsent (some (.deny violation))
      | none => .matched

def afterClaim (payload : ElicitationPayload) (deadline : ℕ) :
    Except StoreError PollClaim → CheckPhase
  | .ok .acquired => .polling deadline
  | .ok .busy => .ended .unsent (some (.modifyPayload { payload with status := some .pending }))
  | .ok .resolved => .ended .unsent (some (approvedCheck payload))
  | .ok .missing => .ended .unsent (some unknownId)
  | .ok .bindingMismatch => .ended .unsent (some elicitationMismatch)
  | .ok .uncertain => .ended .unsent (some storeUnavailable)
  | .error _ => .ended .unsent (some storeUnavailable)

def afterError (payload : ElicitationPayload) (deadline status : ℕ) (code : String) : CheckPhase :=
  if code = "authorization_pending" ∨ code = "slow_down" then
    .settling deadline .release
      (.modifyPayload { payload with status := some .pending, outcome := none })
  else if code = "expired_token" then
    .settling deadline .release
      (.modifyPayload { payload with status := some .expired, outcome := none })
  else if code = "access_denied" then
    .settling deadline .release
      (.modifyPayload { payload with status := some .resolved, outcome := some .denied })
  else
    .settling deadline .abandon
      (denyElicitation "elicitation.op_rejected"
        ("CIBA token poll failed (" ++ toString status ++ ")"))

/-- The tokens come once, so an unreadable answer loses the poll. -/
def afterTokens (payload : ElicitationPayload) (deadline : ℕ) :
    Except String TokenResponse → CheckPhase
  | .error e =>
    .settling deadline .abandon
      (denyElicitation "elicitation.bad_response"
        ("CIBA token response wasn't valid JSON: " ++ e))
  | .ok parsed =>
    match (parsed.idToken.or parsed.accessToken).bind approver.decodeApprover with
    | none =>
      .settling deadline .abandon
        (denyElicitation "elicitation.bad_response" "CIBA token response lacks approver claim")
    | some name => .settling deadline (.complete name) (approvedCheck payload)

def afterAnswer (payload : ElicitationPayload) (deadline : ℕ) : ProviderAnswer → CheckPhase
  | .failed e =>
    .settling deadline (if e.isUncertain then .abandon else .release)
      (.deny (approver.opViolation "CIBA token poll" e))
  | .response status body =>
    if 200 ≤ status ∧ status < 300 then approver.afterTokens payload deadline body.tokens
    else if body.error.getD "" = "invalid_grant" then .rechecking deadline status
    else afterError payload deadline status (body.error.getD "")

def afterRecheck (payload : ElicitationPayload) (deadline status : ℕ) (found : Option Correlation) :
    CheckPhase :=
  if (found.bind Correlation.resolvedApprover).isSome then
    .settling deadline .release (approvedCheck payload)
  else afterError payload deadline status "invalid_grant"

end CibaApprover

def PollSettlement.perform (settlement : PollSettlement) (store : MemoryState) (id owner : String)
    (now : Clock) : Except StoreError Unit × MemoryState :=
  match settlement with
  | .release => store.releasePoll id owner now
  | .complete approver => store.completePoll id owner approver now
  | .abandon => store.abandonPoll id owner now

def PollSettlement.fate (deadline instant : ℕ) : PollSettlement → PollFate
  | .release => .released deadline instant
  | .complete approver => .completed deadline instant approver
  | .abandon => .abandoned deadline

def afterSettlement (deadline instant : ℕ) (settlement : PollSettlement)
    (reply : ElicitationReply) : Except StoreError Unit → CheckPhase
  | .ok () => .ended (settlement.fate deadline instant) (some reply)
  | .error _ => .ended (.unsettled deadline) (some storeUnavailable)

/-- The next store operation, and the code up to the await after it. -/
def CibaApprover.advanceCheck (approver : CibaApprover) (owner id : String)
    (payload : ElicitationPayload) (phase : CheckPhase) (store : MemoryState) (now : Clock) :
    CheckPhase × MemoryState :=
  match phase with
  | .started =>
    let found := store.get id now
    (approver.afterGet payload id found.1, found.2)
  | .matched =>
    let claim := store.claimPoll id owner approver.lease payload.routeKey payload.tool
      payload.requester now
    (afterClaim payload (now.instant + approver.lease) claim.1, claim.2)
  | .rechecking deadline status =>
    let found := store.get id now
    (afterRecheck payload deadline status found.1, found.2)
  | .settling deadline settlement reply =>
    let settled := settlement.perform store id owner now
    (afterSettlement deadline now.instant settlement reply settled.1, settled.2)
  | .polling deadline => (.polling deadline, store)
  | .ended fate reply => (.ended fate reply, store)

def CheckPhase.sentDeadline : CheckPhase → Option ℕ
  | .started | .matched | .ended .unsent _ => none
  | .polling deadline | .rechecking deadline _ | .settling deadline _ _ => some deadline
  | .ended (.released deadline _) _ | .ended (.completed deadline _ _) _
  | .ended (.abandoned deadline) _ | .ended (.unsettled deadline) _ => some deadline

def CheckPhase.dropped : CheckPhase → CheckPhase
  | .ended fate reply => .ended fate reply
  | phase => .ended (phase.sentDeadline.elim .unsent .unsettled) none

/-- The stored approver against the one that was asked. -/
def CibaApprover.compareApprovers (approver : CibaApprover) (payload : ElicitationPayload)
    (c : Correlation) : ElicitationReply :=
  match c.resolvedApprover with
  | none =>
    invalidElicitation payload
      ("elicitation has no resolved approver (no `" ++ approver.approverClaim ++
        "` claim was extracted at check, or it hasn't resolved)")
  | some resolved =>
    if resolved = c.expectedApprover then
      .modifyPayload { payload with approver := some resolved, valid := some true }
    else
      .modifyPayload { payload with
        approver := some resolved
        valid := some false
        reason := some ("approver mismatch: token names `" ++ resolved ++ "`, expected `" ++
          c.expectedApprover ++ "`") }

/-- Its reply, the correlation it removed, and the store. -/
structure Validated where
  reply : ElicitationReply
  taken : Option Correlation
  store : MemoryState

def CibaApprover.peekApproval (approver : CibaApprover) (payload : ElicitationPayload)
    (id : String) (store : MemoryState) (now : Clock) : Validated :=
  let found := store.get id now
  match found.1 with
  | none => ⟨unknownId, none, found.2⟩
  | some c =>
    if c.boundToPayload payload then ⟨approver.compareApprovers payload c, none, found.2⟩
    else ⟨elicitationMismatch, none, found.2⟩

def CibaApprover.redeemApproval (approver : CibaApprover) (payload : ElicitationPayload)
    (id : String) (store : MemoryState) (now : Clock) : Validated :=
  let taken := store.takeIfReady id payload.routeKey payload.tool payload.requester now
  match taken.1 with
  | .ready c => ⟨approver.compareApprovers payload c, some c, taken.2⟩
  | .missing => ⟨unknownId, none, taken.2⟩
  | .bindingMismatch => ⟨elicitationMismatch, none, taken.2⟩
  | .pending =>
    ⟨invalidElicitation payload "elicitation has no resolved approver", none, taken.2⟩

def CibaApprover.doValidate (approver : CibaApprover) (payload : ElicitationPayload)
    (store : MemoryState) (now : Clock) : Validated :=
  match handleRefusal payload, payload.elicitationId with
  | some refusal, _ => ⟨refusal, none, store⟩
  | none, none =>
    ⟨denyElicitation "elicitation.bad_request" "CIBA validate requires an elicitation id", none,
      store⟩
  | none, some id =>
    if payload.peek then approver.peekApproval payload id store now
    else approver.redeemApproval payload id store now

structure Redemption where
  payload : ElicitationPayload
  correlation : Correlation

structure ApprovalState where
  store : MemoryState
  calls : List CheckCall
  redeemed : List Redemption

def ApprovalState.new : ApprovalState := ⟨.empty, [], []⟩

inductive ApprovalEvent where
  | dispatch (id : String) (payload : ElicitationPayload) (expiresAt : ℤ) (now : Clock)
  | check (payload : ElicitationPayload)
  | advance (call : ℕ) (now : Clock)
  | answer (call : ℕ) (answer : ProviderAnswer)
  | cancel (call : ℕ)
  | validate (payload : ElicitationPayload) (now : Clock)

def dispatchedCorrelation (payload : ElicitationPayload) (expiresAt : ℤ) : Correlation where
  expectedApprover := payload.loginHint
  resolvedApprover := none
  routeKey := payload.routeKey
  tool := payload.tool
  requester := payload.requester
  expiresAt := expiresAt

namespace ApprovalState

variable (approver : CibaApprover) (owner : ℕ → String)

def setPhase (s : ApprovalState) (call : ℕ) (c : CheckCall) (phase : CheckPhase) : ApprovalState :=
  { s with calls := s.calls.set call { c with phase := phase } }

def advance (s : ApprovalState) (call : ℕ) (now : Clock) : ApprovalState :=
  match s.calls[call]? with
  | none => s
  | some c =>
    match c.payload.elicitationId with
    | none => s
    | some id =>
      let next := approver.advanceCheck (owner call) id c.payload c.phase s.store now
      { s.setPhase call c next.1 with store := next.2 }

def answer (s : ApprovalState) (call : ℕ) (answer : ProviderAnswer) : ApprovalState :=
  match s.calls[call]? with
  | some c =>
    match c.phase with
    | .polling deadline => s.setPhase call c (approver.afterAnswer c.payload deadline answer)
    | _ => s
  | none => s

def cancel (s : ApprovalState) (call : ℕ) : ApprovalState :=
  match s.calls[call]? with
  | some c => s.setPhase call c c.phase.dropped
  | none => s

def validate (s : ApprovalState) (payload : ElicitationPayload) (now : Clock) : ApprovalState :=
  let done := approver.doValidate payload s.store now
  { s with
    store := done.store
    redeemed := (done.taken.map fun c => ⟨payload, c⟩).toList ++ s.redeemed }

/-- The owner of a call's claim is the text it draws. -/
def step (s : ApprovalState) : ApprovalEvent → ApprovalState
  | .dispatch id payload expiresAt now =>
    { s with store := s.store.put id (dispatchedCorrelation payload expiresAt) now }
  | .check payload => { s with calls := s.calls ++ [beginCheck payload] }
  | .advance call now => s.advance approver owner call now
  | .answer call a => s.answer approver call a
  | .cancel call => s.cancel call
  | .validate payload now => s.validate approver payload now

end ApprovalState

end PraxisPolicy
