import PraxisPolicy.ExtensionMerge
import PraxisPolicy.StepInvokers

/-!
# Delegate steps

A `delegate(...)` step hands a request for a downstream credential to a delegator plugin and applies
what comes back to the extensions.  What the plugin answers is arbitrary.
-/

namespace PraxisPolicy

open HashMaps JsonValues TextScanning

section Payload

/-- The principal an exchange is for. -/
inductive DelegationSubject where
  | user | client | callerWorkload | thisWorkload
  deriving DecidableEq, Repr

/-- This instance itself has none. -/
def DelegationSubject.inboundRole : DelegationSubject → Option TokenRole
  | .user => some .user
  | .client => some .client
  | .callerWorkload => some .callerWorkload
  | .thisWorkload => none

def DelegationSubject.fromConfigStr (s : String) : Option DelegationSubject :=
  if s = "user" then some .user
  else if s = "client" then some .client
  else if s = "caller_workload" ∨ s = "workload" then some .callerWorkload
  else if s = "this_workload" ∨ s = "gateway" then some .thisWorkload
  else none

inductive TargetType where
  | tool | agent | resource | service
  | custom (kind : String)
  deriving DecidableEq, Repr

inductive AuthEnforcedBy where
  | caller | target | both
  deriving DecidableEq, Repr

structure AttenuationConfig where
  capabilities : List String
  resourceTemplate : Option String
  actions : List String
  ttlSeconds : Option ℕ
  deriving DecidableEq, Repr

variable [Contents]

/-- The request, then its answer. -/
structure DelegationPayload where
  bearerToken : String
  actorToken : String
  actorRole : Option TokenRole
  subject : DelegationSubject
  delegatorName : String
  targetName : String
  targetType : TargetType
  targetAudience : Option String
  requiredPermissions : List String
  trustDomain : Option String
  authEnforcedBy : AuthEnforcedBy
  routeAttenuation : Option AttenuationConfig
  delegatedToken : Option RawDelegatedToken
  delegationUpdate : Option (DelegationExtension Contents.detail)
  delegationMode : Option DelegationMode
  mintedAt : Option DateTime
  metadata : HashMap String Json

namespace DelegationPayload

def new (bearerToken targetName : String) : DelegationPayload where
  bearerToken := bearerToken
  actorToken := ""
  actorRole := none
  subject := .user
  delegatorName := ""
  targetName := targetName
  targetType := .tool
  targetAudience := none
  requiredPermissions := []
  trustDomain := none
  authEnforcedBy := .caller
  routeAttenuation := none
  delegatedToken := none
  delegationUpdate := none
  delegationMode := none
  mintedAt := none
  metadata := ∅

def involvesWorkload (p : DelegationPayload) : Bool :=
  p.subject == .callerWorkload || p.actorRole == some .callerWorkload

def involvesClient (p : DelegationPayload) : Bool :=
  p.subject == .client || p.actorRole == some .client

def delegationKey (p : DelegationPayload) (token : RawDelegatedToken) (e : Extensions) :
    DelegationKey where
  subjectId := ((e.security.bind (·.subject)).bind (·.id)).getD ""
  workloadId :=
    if p.involvesWorkload then (e.security.bind (·.callerWorkload)).bind (·.spiffeId) else none
  clientId :=
    if p.involvesClient then
      ((e.security.bind (·.client)).map (·.clientId)).filter (· ≠ "")
    else none
  delegatorName := p.delegatorName
  targetName := p.targetName
  audience := token.audience
  scopes := token.scopes
  mode := p.delegationMode.getD .onBehalfOfUser

def applyToExtensions (p : DelegationPayload) (e : Extensions) : Extensions :=
  let e := match p.delegatedToken with
    | some token =>
      let raw := e.rawCredentials.getD .default
      { e with rawCredentials := some { raw with
          delegatedTokens := raw.delegatedTokens.insert (p.delegationKey token e) token } }
    | none => e
  match p.delegationUpdate with
  | some update => { e with delegation := some update }
  | none => e

end DelegationPayload

end Payload

def Yaml.asStr (v : Yaml) : Option String :=
  match v.untag with
  | .string s => some s
  | _ => none

def DelegateStep.config (step : DelegateStep) : List (Yaml × Yaml) :=
  match step.configOverride.map Yaml.untag with
  | some (.mapping entries) => entries
  | _ => []

def subjectFromCfg (cfg : List (Yaml × Yaml)) : Except DelegationError DelegationSubject :=
  match Yaml.stringEntry "subject" cfg with
  | none => .ok .user
  | some v =>
    match v.asStr with
    | none => .error (.invalidConfig "`subject:` must be a string")
    | some s =>
      match DelegationSubject.fromConfigStr s with
      | some subject => .ok subject
      | none => .error (.invalidConfig ("unknown `subject: " ++ s ++
          "` (expected user | client | caller_workload | this_workload)"))

def roleFromCfg (cfg : List (Yaml × Yaml)) (key : String) :
    Except DelegationError (Option TokenRole) :=
  match Yaml.stringEntry key cfg with
  | none => .ok none
  | some v =>
    match v.asStr with
    | none => .error (.invalidConfig ("`" ++ key ++ ":` must be a string"))
    | some s =>
      if s = "user" then .ok (some .user)
      else if s = "client" then .ok (some .client)
      else if s = "caller_workload" ∨ s = "workload" then .ok (some .callerWorkload)
      else .error (.invalidConfig ("unknown `" ++ key ++ ": " ++ s ++
          "` (expected user | client | caller_workload)"))

def rejectUnsupportedActorCombo (subject : DelegationSubject) (actor : Option TokenRole) :
    Except DelegationError Unit :=
  if actor.isSome ∧ (subject = .callerWorkload ∨ subject = .thisWorkload) then
    .error (.invalidConfig ("`actor:` is not supported with `subject: caller_workload` or " ++
      "`subject: this_workload` — the actor would be silently ignored"))
  else .ok ()

def permissionsFromCfg (cfg : List (Yaml × Yaml)) : Except DelegationError (List String) :=
  match Yaml.stringEntry "permissions" cfg with
  | none => .ok []
  | some v =>
    match v.untag with
    | .sequence items =>
      items.zipIdx.mapM fun (item, i) =>
        match item.asStr with
        | some s => .ok s
        | none =>
          .error (.invalidConfig ("`permissions[" ++ toString i ++ "]` must be a string"))
    | _ => .error (.invalidConfig "`permissions:` must be a sequence")

def targetTypeFromStr (s : String) : TargetType :=
  let s := toAsciiLowercase s
  if s = "tool" then .tool
  else if s = "agent" then .agent
  else if s = "resource" then .resource
  else if s = "service" then .service
  else .custom s

def authEnforcedByFromStr (s : String) : AuthEnforcedBy :=
  if toAsciiLowercase s = "target" then .target else .caller

section Invoker

variable [Library] [Contents]

structure DelegationAnswer where
  continueProcessing : Bool
  /-- Code and reason of the violation of a run that was stopped. -/
  violation : Option (String × String)
  /-- The payload of the run, when it is a delegation payload. -/
  payload : Option DelegationPayload

/-- The plan's entries, the engine on one entry, and the deserializer of an `attenuation:` block. -/
structure DelegationEngine where
  hasEntry : String → Bool
  invokeEntries : String → DelegationPayload → Extensions → DelegationAnswer
  parseAttenuation : Yaml → Except String AttenuationConfig

omit [Library] in
/-- `Extensions::clone`: tokens and the transport are not carried. -/
def Extensions.clone (e : Extensions) : Extensions :=
  { e with
    httpWriteToken := false
    labelsWriteToken := false
    delegationWriteToken := false
    httpTransport := .notInstalled }

omit [Library] in
def Extensions.inboundToken (e : Extensions) (role : Option TokenRole) : String :=
  (role.bind fun role =>
    (e.rawCredentials.bind fun raw => raw.inboundTokens.lookup role).map (·.token)).getD ""

omit [Library] in
def delegationRequest (engine : DelegationEngine) (step : DelegateStep) (e : Extensions) :
    Except DelegationError DelegationPayload := do
  let cfg := step.config
  let subject ← subjectFromCfg cfg
  let targetName := ((Yaml.stringEntry "target" cfg).bind Yaml.asStr).getD step.pluginName
  let actorRole ← roleFromCfg cfg "actor"
  rejectUnsupportedActorCombo subject actorRole
  let payload := { DelegationPayload.new (e.inboundToken subject.inboundRole) targetName with
    subject := subject
    delegatorName := step.pluginName }
  let actorToken := e.inboundToken actorRole
  let payload :=
    if actorToken ≠ "" then { payload with actorRole := actorRole, actorToken := actorToken }
    else payload
  let payload := match (Yaml.stringEntry "audience" cfg).bind Yaml.asStr with
    | some audience => { payload with targetAudience := some audience }
    | none => payload
  let permissions ← permissionsFromCfg cfg
  let payload :=
    if permissions ≠ [] then { payload with requiredPermissions := permissions } else payload
  let payload := match (Yaml.stringEntry "target_type" cfg).bind Yaml.asStr with
    | some kind => { payload with targetType := targetTypeFromStr kind }
    | none => payload
  let payload := match (Yaml.stringEntry "auth_enforced_by" cfg).bind Yaml.asStr with
    | some enforcer => { payload with authEnforcedBy := authEnforcedByFromStr enforcer }
    | none => payload
  match Yaml.stringEntry "attenuation" cfg with
  | none => return payload
  | some block =>
    match engine.parseAttenuation block with
    | .ok attenuation => return { payload with routeAttenuation := some attenuation }
    | .error err => .error (.invalidConfig ("invalid `attenuation:` block: " ++ err))

def delegationOutcome (resolved : DelegationPayload) : DelegationOutcome :=
  match resolved.delegatedToken with
  | some token => ⟨.allow, token.scopes, some token.audience,
      some (Library.rfc3339 token.expiresAt.seconds)⟩
  | none => ⟨.allow, [], none, none⟩

omit [Library] in
def deniedOutcome (step : DelegateStep) (answer : DelegationAnswer) : DelegationOutcome :=
  match answer.violation with
  | some (code, reason) => ⟨.deny (some reason) code, [], none, none⟩
  | none => ⟨.deny (some ("delegate `" ++ step.pluginName ++
      "` denied without violation detail")) step.source, [], none, none⟩

def delegate (engine : DelegationEngine) (step : DelegateStep) (e : Extensions) :
    Except DelegationError DelegationOutcome × Extensions :=
  if engine.hasEntry step.pluginName then
    match delegationRequest engine step e.clone with
    | .error err => (.error err, e)
    | .ok request =>
      let answer := engine.invokeEntries step.pluginName request e.clone
      if answer.continueProcessing then
        match answer.payload with
        | none => (.error (.dispatch ("plugin `" ++ step.pluginName ++
            "` returned allow but no DelegationPayload")), e)
        | some resolved =>
          (.ok (delegationOutcome resolved), resolved.applyToExtensions e.clone)
      else (.ok (deniedOutcome step answer), e)
  else (.error (.notFound step.pluginName), e)

end Invoker

end PraxisPolicy
