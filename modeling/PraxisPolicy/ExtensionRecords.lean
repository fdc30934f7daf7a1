import PraxisPolicy.RuleTrees

/-!
# The typed extension records

Hash sets are finite sets and hash maps are `HashMap`s, so a record never fixes an iteration order.
The entries of `authorization_details` are an arbitrary type.
-/

namespace PraxisPolicy

open BinaryFloats HashMaps JsonValues

structure DateTime where
  seconds : ℤ
  nanos : ℕ
  deriving DecidableEq, Repr, Inhabited

inductive SubjectType where
  | user | agent | service | system
  deriving DecidableEq, Repr

structure KeyBinding where
  method : String
  thumbprint : String
  deriving DecidableEq, Repr

structure SubjectExtension where
  id : Option String
  subjectType : Option SubjectType
  roles : Finset String
  permissions : Finset String
  teams : Finset String
  claims : HashMap String Json
  keyBinding : Option KeyBinding

inductive ClientTrustLevel where
  | firstParty | thirdParty | internal
  | custom (level : String)
  deriving DecidableEq, Repr

structure ClientExtension where
  clientId : String
  clientName : Option String
  trustLevel : ClientTrustLevel
  authorizedScopes : List String
  authorizedAudiences : List String
  roles : List String
  permissions : List String
  teams : List String
  claims : HashMap String Json
  keyBinding : Option KeyBinding

structure WorkloadIdentity where
  spiffeId : Option String
  trustDomain : Option String
  attestedAt : Option DateTime
  attestor : Option String
  selectors : List String
  clientId : Option String
  keyBinding : Option KeyBinding
  deriving DecidableEq, Repr

structure ObjectSecurityProfile where
  managedBy : Option String
  permissions : List String
  trustDomain : Option String
  dataScope : List String
  deriving DecidableEq, Repr

structure RetentionPolicy where
  maxAgeSeconds : Option ℕ
  policy : String
  deleteAfter : Option String
  deriving DecidableEq, Repr

structure DataPolicy where
  applyLabels : List String
  allowedActions : Option (List String)
  deniedActions : List String
  retention : Option RetentionPolicy
  deriving DecidableEq, Repr

structure SecurityExtension where
  labels : Finset String
  classification : Option String
  subject : Option SubjectExtension
  client : Option ClientExtension
  callerWorkload : Option WorkloadIdentity
  thisWorkload : Option WorkloadIdentity
  authMethod : Option String
  objects : HashMap String ObjectSecurityProfile
  data : HashMap String DataPolicy

def SecurityExtension.default : SecurityExtension :=
  ⟨∅, none, none, none, none, none, none, ∅, ∅⟩

/-- `secretMarkers` maps the lowercased name of a secret header to the text shown in its place. -/
structure HttpExtension where
  requestHeaders : HashMap String String
  clientAddress : Option String
  secretMarkers : HashMap String String
  responseHeaders : HashMap String String
  status : Option ℕ
  method : Option String
  path : Option String
  query : Option String
  host : Option String
  scheme : Option String
  deriving DecidableEq

def HttpExtension.default : HttpExtension :=
  ⟨∅, none, ∅, ∅, none, none, none, none, none, none⟩

inductive DelegationStrategy where
  | tokenExchange | clientCredentials | spiffeSvid | passthrough | ucan | transactionToken
  | custom (name : String)
  deriving DecidableEq, Repr

/-- `Detail` is the type of an `authorization_details` entry. -/
structure DelegationHop (Detail : Type) where
  subjectId : String
  subjectType : Option SubjectType
  audience : Option String
  scopesGranted : List String
  authorizationDetails : List Detail
  timestamp : DateTime
  ttlSeconds : Option ℕ
  strategy : Option DelegationStrategy
  fromCache : Bool
  deriving DecidableEq

structure DelegationExtension (Detail : Type) where
  chain : List (DelegationHop Detail)
  depth : ℕ
  originSubjectId : Option String
  actorSubjectId : Option String
  delegated : Bool
  ageSeconds : Float64
  deriving DecidableEq

def DelegationExtension.default {Detail : Type} : DelegationExtension Detail :=
  ⟨[], 0, none, none, false, Float64.ofInt 0⟩

inductive TokenRole where
  | user | client | callerWorkload
  | custom (role : String)
  deriving DecidableEq, Repr

inductive Credential where
  | header (name : String)
  | cookie (name : String)
  | queryParam (name : String)
  deriving DecidableEq, Repr

inductive TokenKind where
  | jwt | opaqueToken | spiffeJwt | ucan | txnToken
  deriving DecidableEq, Repr

structure RawInboundToken where
  token : String
  source : Credential
  kind : TokenKind
  deriving DecidableEq, Repr

inductive DelegationMode where
  | onBehalfOfUser | asClient | asCallerWorkload | asThisWorkload
  deriving DecidableEq, Repr

structure DelegationKey where
  subjectId : String
  workloadId : Option String
  clientId : Option String
  delegatorName : String
  targetName : String
  audience : String
  scopes : List String
  mode : DelegationMode
  deriving DecidableEq, Repr

structure RawDelegatedToken where
  token : String
  outboundHeader : String
  outboundPrefix : String
  audience : String
  scopes : List String
  expiresAt : DateTime
  deriving DecidableEq, Repr

structure RawCredentialsExtension where
  inboundTokens : HashMap TokenRole RawInboundToken
  delegatedTokens : HashMap DelegationKey RawDelegatedToken
  deriving DecidableEq

def RawCredentialsExtension.default : RawCredentialsExtension := ⟨∅, ∅⟩

/-- What `restrict` effects leave for the router. -/
structure CandidateConstraintExtension where
  allowModels : Option (List String)
  denyModels : List String
  allowRegions : Option (List String)
  allowSites : Option (List String)
  maxCostTiers : List String
  custom : HashMap String String
  onEmpty : OnEmpty
  deriving DecidableEq

end PraxisPolicy
