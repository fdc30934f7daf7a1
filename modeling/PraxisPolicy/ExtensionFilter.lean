import PraxisPolicy.ExtensionRecords

/-!
# The extension container and what a plugin sees of it

Ten slots are shared by pointer and never rebuilt; they are one family, indexed by `ImmutableSlot`.
`filterExtensions` builds the view that a plugin's capabilities grant.
-/

namespace PraxisPolicy

open HashMaps JsonValues TextScanning

section Container

/-- A shared pointer: where it points, and what is there. -/
structure Arc (α : Type) where
  addr : ℕ
  value : α

/-- Shared by pointer and only ever read. -/
inductive ImmutableSlot where
  | request | agent | mcp | completion | provenance | llm | llmRequest | framework
  | hostMeta | metadata
  deriving DecidableEq, Repr

class Contents where
  /-- What an immutable slot holds. -/
  slot : ImmutableSlot → Type
  /-- An entry of `authorization_details`. -/
  detail : Type
  [decEqDetail : DecidableEq detail]
  /-- The host's HTTP transport. -/
  transport : Type

@[reducible] def Contents.plain : Contents where
  slot _ := Unit
  detail := Unit
  transport := Unit

instance [Contents] : DecidableEq Contents.detail := Contents.decEqDetail

/-- Never installed, usable, or not permitted. -/
inductive HttpTransportSlot (T : Type) where
  | notInstalled
  | available (transport : T)
  | notPermitted

def HttpTransportSlot.isAvailable {T : Type} : HttpTransportSlot T → Bool
  | .available _ => true
  | _ => false

variable [Contents]

/-- A write token is only ever present or absent. -/
@[ext]
structure Extensions where
  immutable : (s : ImmutableSlot) → Option (Arc (Contents.slot s))
  http : Option HttpExtension
  security : Option SecurityExtension
  candidateConstraint : Option CandidateConstraintExtension
  delegation : Option (DelegationExtension Contents.detail)
  rawCredentials : Option RawCredentialsExtension
  custom : Option (HashMap String Json)
  httpWriteToken : Bool
  labelsWriteToken : Bool
  delegationWriteToken : Bool
  httpTransport : HttpTransportSlot Contents.transport

def Extensions.default : Extensions :=
  ⟨fun _ => none, none, none, none, none, none, none, false, false, false, .notInstalled⟩

end Container

inductive MutabilityTier where
  | immutable | monotonic | mutable
  deriving DecidableEq, Repr

inductive Capability where
  | readSubject | readRoles | readTeams | readClaims | readPermissions
  | readClient | readWorkload | readAgent | readLlmRequest | readMetadata
  | readHeaders | readQuery | writeHeaders
  | readLabels | appendLabels
  | readDelegation | appendDelegation
  | readInboundCredentials | readDelegatedTokens
  | performHttp
  deriving DecidableEq, Repr

def Capability.name : Capability → String
  | .readSubject => "read_subject"
  | .readRoles => "read_roles"
  | .readTeams => "read_teams"
  | .readClaims => "read_claims"
  | .readPermissions => "read_permissions"
  | .readClient => "read_client"
  | .readWorkload => "read_workload"
  | .readAgent => "read_agent"
  | .readLlmRequest => "read_llm_request"
  | .readMetadata => "read_metadata"
  | .readHeaders => "read_headers"
  | .readQuery => "read_query"
  | .writeHeaders => "write_headers"
  | .readLabels => "read_labels"
  | .appendLabels => "append_labels"
  | .readDelegation => "read_delegation"
  | .appendDelegation => "append_delegation"
  | .readInboundCredentials => "read_inbound_credentials"
  | .readDelegatedTokens => "read_delegated_tokens"
  | .performHttp => "perform_http"

inductive AccessPolicy where
  | unrestricted | capabilityGated
  deriving DecidableEq, Repr

structure SlotPolicy where
  tier : MutabilityTier
  access : AccessPolicy
  readCap : Option Capability
  writeCap : Option Capability
  deriving DecidableEq, Repr

inductive SlotName where
  | request | agent | http | hostMeta | metadata | delegation | custom | mcp | completion
  | provenance | llm | llmRequest | framework
  | securityLabels | securitySubject | securitySubjectRoles | securitySubjectTeams
  | securitySubjectClaims | securitySubjectPermissions | securityClient
  | securityCallerWorkload | securityThisWorkload | securityObjects | securityData
  | rawCredentialsInbound | rawCredentialsDelegated
  deriving DecidableEq, Repr

def slotPolicy : SlotName → SlotPolicy
  | .request | .provenance | .completion | .llm | .framework | .mcp | .hostMeta
  | .securityObjects | .securityData => ⟨.immutable, .unrestricted, none, none⟩
  | .custom => ⟨.mutable, .unrestricted, none, none⟩
  | .agent => ⟨.immutable, .capabilityGated, some .readAgent, none⟩
  | .llmRequest => ⟨.immutable, .capabilityGated, some .readLlmRequest, none⟩
  | .metadata => ⟨.immutable, .capabilityGated, some .readMetadata, none⟩
  | .http => ⟨.mutable, .capabilityGated, some .readHeaders, some .writeHeaders⟩
  | .delegation => ⟨.monotonic, .capabilityGated, some .readDelegation, some .appendDelegation⟩
  | .securityLabels => ⟨.monotonic, .capabilityGated, some .readLabels, some .appendLabels⟩
  | .securitySubject => ⟨.immutable, .capabilityGated, some .readSubject, none⟩
  | .securitySubjectRoles => ⟨.immutable, .capabilityGated, some .readRoles, none⟩
  | .securitySubjectTeams => ⟨.immutable, .capabilityGated, some .readTeams, none⟩
  | .securitySubjectClaims => ⟨.immutable, .capabilityGated, some .readClaims, none⟩
  | .securitySubjectPermissions => ⟨.immutable, .capabilityGated, some .readPermissions, none⟩
  | .securityClient => ⟨.immutable, .capabilityGated, some .readClient, none⟩
  | .securityCallerWorkload => ⟨.immutable, .capabilityGated, some .readWorkload, none⟩
  | .securityThisWorkload => ⟨.immutable, .capabilityGated, some .readWorkload, none⟩
  | .rawCredentialsInbound => ⟨.immutable, .capabilityGated, some .readInboundCredentials, none⟩
  | .rawCredentialsDelegated => ⟨.immutable, .capabilityGated, some .readDelegatedTokens, none⟩

def hasAnySubjectCapability (caps : Finset String) : Bool :=
  [Capability.readSubject, .readRoles, .readTeams, .readClaims, .readPermissions].any
    fun cap => decide (cap.name ∈ caps)

def hasReadAccess (policy : SlotPolicy) (caps : Finset String) : Bool :=
  policy.access == .unrestricted ||
  policy.readCap.any (fun cap => decide (cap.name ∈ caps)) ||
  (policy.readCap == some .readSubject && hasAnySubjectCapability caps)

abbrev canRead (slot : SlotName) (caps : Finset String) : Bool :=
  hasReadAccess (slotPolicy slot) caps

section Views

/-- The marker stands in for a secret value. -/
def HttpExtension.redactedRequestHeaders (http : HttpExtension) : HashMap String String :=
  mapValues (fun name value => (http.secretMarkers.lookup (toAsciiLowercase name)).getD value)
    http.requestHeaders

def buildFilteredRawCredentials (raw : RawCredentialsExtension)
    (allowInbound allowDelegated : Bool) : RawCredentialsExtension where
  inboundTokens := if allowInbound then raw.inboundTokens else ∅
  delegatedTokens := if allowDelegated then raw.delegatedTokens else ∅

def buildFilteredSubject (subject : SubjectExtension) (caps : Finset String) :
    SubjectExtension where
  id := subject.id
  subjectType := subject.subjectType
  keyBinding := subject.keyBinding
  roles := if Capability.readRoles.name ∈ caps then subject.roles else ∅
  permissions := if Capability.readPermissions.name ∈ caps then subject.permissions else ∅
  teams := if Capability.readTeams.name ∈ caps then subject.teams else ∅
  claims := if Capability.readClaims.name ∈ caps then subject.claims else ∅

def buildFilteredSecurity (security : SecurityExtension) (caps : Finset String) :
    SecurityExtension where
  objects := security.objects
  data := security.data
  classification := security.classification
  authMethod := security.authMethod
  labels := if canRead .securityLabels caps then security.labels else ∅
  subject :=
    if hasAnySubjectCapability caps then
      security.subject.map fun subject => buildFilteredSubject subject caps
    else none
  client := if canRead .securityClient caps then security.client else none
  callerWorkload := if canRead .securityCallerWorkload caps then security.callerWorkload else none
  thisWorkload := if canRead .securityThisWorkload caps then security.thisWorkload else none

/-- Headers and the raw query have independent grants. -/
def buildFilteredHttp (http : HttpExtension) (caps : Finset String) : Option HttpExtension :=
  let readHeaders := canRead .http caps
  let readQuery := decide (Capability.readQuery.name ∈ caps)
  if readHeaders && decide (http.secretMarkers = ∅) && (readQuery || http.query.isNone) then
    some http
  else if readHeaders then
    some { http with
      requestHeaders := http.redactedRequestHeaders
      query := if readQuery then http.query else none }
  else if readQuery then
    some { HttpExtension.default with query := http.query }
  else none

variable {http : HttpExtension} {caps : Finset String}

theorem HttpExtension.redactedRequestHeaders_of_empty (h : http.secretMarkers = ∅) :
    http.redactedRequestHeaders = http.requestHeaders := by
  refine Finmap.ext_lookup fun name => ?_
  rw [redactedRequestHeaders, lookup_mapValues]
  simp [h]

/-- With the headers readable, secrets are redacted whichever branch builds the view. -/
theorem buildFilteredHttp_of_readHeaders (h : canRead .http caps = true) :
    buildFilteredHttp http caps = some { http with
      requestHeaders := http.redactedRequestHeaders
      query := if Capability.readQuery.name ∈ caps then http.query else none } := by
  unfold buildFilteredHttp
  rw [h]
  simp only [Bool.true_and, Bool.and_eq_true, decide_eq_true_eq, Bool.or_eq_true,
    Option.isNone_iff_eq_none, if_true]
  split
  · rename_i hopen
    obtain ⟨hmarkers, hquery⟩ := hopen
    rw [HttpExtension.redactedRequestHeaders_of_empty hmarkers]
    rcases hquery with hquery | hquery <;> simp [hquery]
    cases http
    simp_all
  · rfl

theorem buildFilteredHttp_of_readQuery (h : canRead .http caps = false)
    (hquery : Capability.readQuery.name ∈ caps) :
    buildFilteredHttp http caps = some { HttpExtension.default with query := http.query } := by
  simp [buildFilteredHttp, h, hquery]

theorem buildFilteredHttp_of_hidden (h : canRead .http caps = false)
    (hquery : Capability.readQuery.name ∉ caps) :
    buildFilteredHttp http caps = none := by
  simp [buildFilteredHttp, h, hquery]

/-- All but three are copied without a check. -/
def ImmutableSlot.readable (caps : Finset String) : ImmutableSlot → Bool
  | .agent => canRead .agent caps
  | .llmRequest => canRead .llmRequest caps
  | .metadata => canRead .metadata caps
  | .request | .mcp | .completion | .provenance | .llm | .framework | .hostMeta => true

variable [Contents]

def filterExtensions (e : Extensions) (caps : Finset String) : Extensions where
  immutable s := if s.readable caps then e.immutable s else none
  http := e.http.bind fun http => buildFilteredHttp http caps
  security := e.security.map fun security => buildFilteredSecurity security caps
  candidateConstraint := e.candidateConstraint
  delegation := if canRead .delegation caps then e.delegation else none
  rawCredentials :=
    let allowInbound := canRead .rawCredentialsInbound caps
    let allowDelegated := canRead .rawCredentialsDelegated caps
    if allowInbound || allowDelegated then
      e.rawCredentials.map fun raw => buildFilteredRawCredentials raw allowInbound allowDelegated
    else none
  custom := e.custom
  httpWriteToken := false
  labelsWriteToken := false
  delegationWriteToken := false
  httpTransport :=
    if e.httpTransport.isAvailable then
      if Capability.performHttp.name ∈ caps then e.httpTransport else .notPermitted
    else .notInstalled

end Views

end PraxisPolicy
