import PraxisPolicy.ExtensionFilter

/-!
# Taking a plugin's extensions back

Pointers of immutable slots, visible labels and the routing constraint are checked first; then the
copy is merged field by field.
-/

namespace PraxisPolicy

open HashMaps JsonValues TextScanning

variable [Contents]

structure OwnedExtensions where
  immutable : (s : ImmutableSlot) → Option (Arc (Contents.slot s))
  rawCredentials : Option RawCredentialsExtension
  http : Option HttpExtension
  security : Option SecurityExtension
  candidateConstraint : Option CandidateConstraintExtension
  delegation : Option (DelegationExtension Contents.detail)
  custom : Option (HashMap String Json)
  httpWriteToken : Bool
  labelsWriteToken : Bool
  delegationWriteToken : Bool

def Extensions.cowCopy (e : Extensions) : OwnedExtensions where
  immutable := e.immutable
  rawCredentials := e.rawCredentials
  http := e.http
  security := e.security
  candidateConstraint := e.candidateConstraint
  delegation := e.delegation
  custom := e.custom
  httpWriteToken := e.httpWriteToken
  labelsWriteToken := e.labelsWriteToken
  delegationWriteToken := e.delegationWriteToken

section Checks

omit [Contents] in
/-- A slot the plugin never saw is no tampering, a fabricated one is. -/
def ptrEqOpt {α : Type} : Option (Arc α) → Option (Arc α) → Bool
  | some a, some b => a.addr == b.addr
  | _, none => true
  | none, some _ => false

def ImmutableSlot.all : List ImmutableSlot :=
  [.request, .agent, .mcp, .completion, .provenance, .llm, .llmRequest, .framework, .hostMeta,
    .metadata]

def Extensions.validateImmutable (e : Extensions) (modified : OwnedExtensions) : Bool :=
  ImmutableSlot.all.all fun s => ptrEqOpt (e.immutable s) (modified.immutable s)

def Extensions.candidateConstraintWriteOk (e : Extensions) (modified : OwnedExtensions)
    (caps : Finset String) : Bool :=
  decide ("write_candidate_constraint" ∈ caps) ||
    modified.candidateConstraint == e.candidateConstraint

def Extensions.labelsOk (e : Extensions) (modified : OwnedExtensions) (caps : Finset String) :
    Bool :=
  !decide ("read_labels" ∈ caps) ||
    match e.security, modified.security with
    | some orig, some new => decide (orig.labels ⊆ new.labels)
    | _, _ => true

end Checks

def HttpExtension.isSecret (http : HttpExtension) (name : String) : Bool :=
  (http.secretMarkers.lookup (toAsciiLowercase name)).isSome

/-- As returned, except that secret ones come from the canonical record. -/
def HttpExtension.mergeHeaders (canonical owned : HttpExtension) : HttpExtension :=
  { canonical with
    requestHeaders :=
      if canonical.secretMarkers = ∅ then owned.requestHeaders
      else extend (retain (fun name => !canonical.isSecret name) owned.requestHeaders)
        (retain canonical.isSecret canonical.requestHeaders)
    responseHeaders := owned.responseHeaders }

def mergeHttp (canonical owned : Option HttpExtension) (token : Bool) : Option HttpExtension :=
  match owned with
  | none => canonical
  | some owned =>
    if token then some ((canonical.getD .default).mergeHeaders owned) else canonical

def mergeSecurity (canonical owned : Option SecurityExtension) (token : Bool) :
    Option SecurityExtension :=
  match owned with
  | none => canonical
  | some owned =>
    if token then
      let merged := canonical.getD .default
      some { merged with labels := merged.labels ∪ owned.labels }
    else canonical

/-- What an extension of the chain must leave alone. -/
def DelegationHop.sameGrant {Detail : Type} [DecidableEq Detail]
    (before after : DelegationHop Detail) : Bool :=
  before.subjectId == after.subjectId &&
  before.subjectType == after.subjectType &&
  before.audience == after.audience &&
  before.scopesGranted == after.scopesGranted &&
  before.strategy == after.strategy &&
  before.authorizationDetails == after.authorizationDetails &&
  before.ttlSeconds == after.ttlSeconds &&
  before.timestamp == after.timestamp

def chainExtends {Detail : Type} [DecidableEq Detail]
    (canonical returned : List (DelegationHop Detail)) : Bool :=
  decide (canonical.length ≤ returned.length) &&
    (canonical.zip returned).all fun e => e.1.sameGrant e.2

def chainDepth {Detail : Type} (chain : List (DelegationHop Detail)) : ℕ :=
  min chain.length (2 ^ 32 - 1)

def mergeDelegation (canonical owned : Option (DelegationExtension Contents.detail))
    (token : Bool) : Option (DelegationExtension Contents.detail) :=
  match owned with
  | none => canonical
  | some owned =>
    if !token then canonical
    else if canonical.any fun c => !chainExtends c.chain owned.chain then canonical
    else
      let merged := canonical.getD .default
      some {
        chain := owned.chain
        depth := chainDepth owned.chain
        delegated := !owned.chain.isEmpty
        originSubjectId := merged.originSubjectId.or owned.originSubjectId
        actorSubjectId := owned.actorSubjectId
        ageSeconds := owned.ageSeconds }

def Extensions.mergeOwned (e : Extensions) (owned : OwnedExtensions) : Extensions :=
  { e with
    http := mergeHttp e.http owned.http owned.httpWriteToken
    security := mergeSecurity e.security owned.security owned.labelsWriteToken
    candidateConstraint := owned.candidateConstraint
    delegation := mergeDelegation e.delegation owned.delegation owned.delegationWriteToken
    custom := owned.custom
    rawCredentials := owned.rawCredentials.or e.rawCredentials }

/-- Those of the plugin's capabilities, whatever it returned. -/
def OwnedExtensions.withTokens (owned : OwnedExtensions) (caps : Finset String) :
    OwnedExtensions :=
  { owned with
    httpWriteToken := decide ("write_headers" ∈ caps)
    labelsWriteToken := decide ("append_labels" ∈ caps)
    delegationWriteToken := decide ("append_delegation" ∈ caps) }

def Extensions.accepts (e : Extensions) (caps : Finset String) (owned : OwnedExtensions) : Bool :=
  e.validateImmutable owned && e.labelsOk owned caps && e.candidateConstraintWriteOk owned caps

/-- The executor's modification step for one serial plugin. -/
def Extensions.applyModification (e : Extensions) (caps : Finset String)
    (owned : OwnedExtensions) : Extensions :=
  if e.accepts caps owned then e.mergeOwned (owned.withTokens caps) else e

def Extensions.pluginView (e : Extensions) (caps : Finset String) : Extensions :=
  { filterExtensions e caps with
    httpWriteToken := decide ("write_headers" ∈ caps)
    labelsWriteToken := decide ("append_labels" ∈ caps)
    delegationWriteToken := decide ("append_delegation" ∈ caps) }

end PraxisPolicy
