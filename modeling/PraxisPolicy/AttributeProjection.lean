import PraxisPolicy.ExtensionRecords
import PraxisPolicy.FieldPaths

/-!
# Projecting payloads and extensions into the bag

Every extractor only ever calls `bag.set`, so each is given as the list of its `set` calls in
order; loops over hash maps run over a list that stands for the iteration order.
-/

namespace PraxisPolicy

open HashMaps JsonValues TextScanning

variable [Library]

def numberText : Number → String
  | .posInt n => toString n
  | .negInt n => toString n
  | .float f => Library.jsonText (.number (.float f))

/-- The printed elements of an array of scalars and nulls; `none` at a container. -/
def scalarElements : List Json → Option (Finset String)
  | [] => some ∅
  | .string s :: items => (scalarElements items).map (insert s)
  | .number n :: items => (scalarElements items).map (insert (numberText n))
  | .bool b :: items => (scalarElements items).map (insert (toString b))
  | .null :: items => scalarElements items
  | .array _ :: _ | .object _ :: _ => none

mutual

/-- `markNonScalar` is set for arguments and results. -/
def walkInner (markNonScalar : Bool) : Json → String → List (String × AttributeValue)
  | .object members, here =>
    (if markNonScalar && here ≠ "" then [(here, .nonScalar)] else []) ++
      walkMembers markNonScalar here members
  | .array items, here =>
    match scalarElements items with
    | some set => [(here, .stringSet set)]
    | none => if markNonScalar then [(here, .nonScalar)] else []
  | .string s, here => [(here, .string s)]
  | .bool b, here => [(here, .bool b)]
  | .number n, here =>
    match n.asI64 with
    | some i => [(here, .int i)]
    | none => [(here, .float n.asF64)]
  | .null, here => if markNonScalar then [(here, .nonScalar)] else []

def walkMembers (markNonScalar : Bool) (here : String) :
    List (String × Json) → List (String × AttributeValue)
  | [] => []
  | (key, sub) :: members =>
    walkInner markNonScalar sub (joinSegment here key) ++ walkMembers markNonScalar here members

end

def extractArgs (args : Json) (bag : AttributeBag) : AttributeBag :=
  bag.setAll (walkInner true args "args")

def extractResult (result : Json) (bag : AttributeBag) : AttributeBag :=
  bag.setAll (walkInner true result "result")

def walk (value : Json) (here : String) : List (String × AttributeValue) :=
  walkInner false value here

section Security

omit [Library] in
def entry {α : Type} (key : String) (value : α → AttributeValue) :
    Option α → List (String × AttributeValue)
  | some a => [(key, value a)]
  | none => []

def SubjectType.text : SubjectType → String
  | .user => "user"
  | .agent => "agent"
  | .service => "service"
  | .system => "system"

def ClientTrustLevel.text : ClientTrustLevel → String
  | .firstParty => "first_party"
  | .thirdParty => "third_party"
  | .internal => "internal"
  | .custom level => level

def isAtomicMembershipName (name : String) : Bool := !containsDot name

def membershipWrites (ns : String) (names : List String) : List (String × AttributeValue) :=
  names.flatMap fun name =>
    if isAtomicMembershipName name then [(ns ++ name, .bool true)] else []

def claimWrites (ns : String) (claims : List (String × Json)) : List (String × AttributeValue) :=
  claims.flatMap fun claim => walk claim.2 (ns ++ claim.1)

def keyBindingWrites (here : String) : Option KeyBinding → List (String × AttributeValue)
  | none => []
  | some kb => [(here ++ ".key_binding", .string kb.method),
      (here ++ ".key_binding_thumbprint", .string kb.thumbprint)]

structure SecurityOrder where
  roles : List String
  permissions : List String
  teams : List String
  claims : List (String × Json)
  clientClaims : List (String × Json)

/-- The orders list what the sets and maps hold, each entry once. -/
structure SecurityOrder.Of (order : SecurityOrder) (sec : SecurityExtension) : Prop where
  roles : ∀ subject ∈ sec.subject, order.roles.Nodup ∧ order.roles.toFinset = subject.roles
  permissions : ∀ subject ∈ sec.subject,
    order.permissions.Nodup ∧ order.permissions.toFinset = subject.permissions
  teams : ∀ subject ∈ sec.subject, order.teams.Nodup ∧ order.teams.toFinset = subject.teams
  claims : ∀ subject ∈ sec.subject, Enumerates order.claims subject.claims
  clientClaims : ∀ client ∈ sec.client, Enumerates order.clientClaims client.claims

def subjectMembershipWrites (order : SecurityOrder) (subject : SubjectExtension) :
    List (String × AttributeValue) :=
  entry "subject.id" .string subject.id ++
  entry "subject.type" (fun t => .string t.text) subject.subjectType ++
  [("subject.roles", .stringSet subject.roles)] ++
  membershipWrites "role." order.roles ++
  [("subject.permissions", .stringSet subject.permissions)] ++
  membershipWrites "perm." order.permissions ++
  [("subject.teams", .stringSet subject.teams)] ++
  membershipWrites "team." order.teams

def subjectClosingWrites (subject : SubjectExtension) : List (String × AttributeValue) :=
  (if subject.id.isSome then [("authenticated", .bool true)] else []) ++
  keyBindingWrites "subject" subject.keyBinding

def clientWrites (order : SecurityOrder) (client : ClientExtension) :
    List (String × AttributeValue) :=
  [("client.client_id", .string client.clientId)] ++
  entry "client.client_name" .string client.clientName ++
  [("client.trust_level", .string client.trustLevel.text)] ++
  [("client.roles", .stringSet client.roles.toFinset)] ++
  membershipWrites "client.role." client.roles ++
  [("client.permissions", .stringSet client.permissions.toFinset)] ++
  membershipWrites "client.perm." client.permissions ++
  [("client.authorized_scopes", .stringSet client.authorizedScopes.toFinset)] ++
  [("client.authorized_audiences", .stringSet client.authorizedAudiences.toFinset)] ++
  [("client.teams", .stringSet client.teams.toFinset)] ++
  claimWrites "client.claim." order.clientClaims ++
  keyBindingWrites "client" client.keyBinding

def workloadWrites (here : String) (w : WorkloadIdentity) : List (String × AttributeValue) :=
  entry (here ++ ".spiffe_id") .string w.spiffeId ++
  entry (here ++ ".trust_domain") .string w.trustDomain ++
  entry (here ++ ".attestor") .string w.attestor ++
  [(here ++ ".selectors", .stringSet w.selectors.toFinset)] ++
  entry (here ++ ".client_id") .string w.clientId ++
  keyBindingWrites here w.keyBinding ++
  entry (here ++ ".attested_at") (fun t : DateTime => .string (Library.rfc3339 t.seconds))
    w.attestedAt ++
  entry (here ++ ".attested_at_epoch") (fun t : DateTime => .int t.seconds) w.attestedAt

def principalWrites (order : SecurityOrder) (sec : SecurityExtension) :
    List (String × AttributeValue) :=
  (match sec.client with | some client => clientWrites order client | none => []) ++
  (match sec.callerWorkload with | some w => workloadWrites "caller_workload" w | none => []) ++
  (match sec.thisWorkload with | some w => workloadWrites "this_workload" w | none => []) ++
  entry "auth_method" .string sec.authMethod ++
  [("security.labels", .stringSet sec.labels)] ++
  entry "security.classification" .string sec.classification

def securityWrites (order : SecurityOrder) (sec : SecurityExtension) :
    List (String × AttributeValue) :=
  match sec.subject with
  | some subject =>
    subjectMembershipWrites order subject ++ claimWrites "claim." order.claims ++
      (subjectClosingWrites subject ++ principalWrites order sec)
  | none => principalWrites order sec

def extractSecurity (order : SecurityOrder) (sec : SecurityExtension) (bag : AttributeBag) :
    AttributeBag :=
  bag.setAll (securityWrites order sec)

end Security

structure HttpOrder where
  requestHeaders : List (String × String)
  responseHeaders : List (String × String)

structure HttpOrder.Of (order : HttpOrder) (http : HttpExtension) : Prop where
  requestHeaders : Enumerates order.requestHeaders http.requestHeaders
  responseHeaders : Enumerates order.responseHeaders http.responseHeaders

def headerWrites (ns : String) (headers : List (String × String)) :
    List (String × AttributeValue) :=
  headers.flatMap fun header => [(ns ++ Library.toLowercase header.1, .string header.2)]

def requestLineWrites (http : HttpExtension) : List (String × AttributeValue) :=
  entry "http.method" .string http.method ++
  entry "http.path" .string http.path ++
  entry "http.query" .string http.query ++
  entry "http.host" .string http.host ++
  entry "http.scheme" .string http.scheme ++
  entry "http.client_address" .string http.clientAddress ++
  entry "http.status" (fun status : ℕ => .int status) http.status

def httpWrites (order : HttpOrder) (http : HttpExtension) : List (String × AttributeValue) :=
  requestLineWrites http ++ headerWrites "http.request_headers." order.requestHeaders ++
    headerWrites "http.response_headers." order.responseHeaders

def extractHttp (order : HttpOrder) (http : HttpExtension) (bag : AttributeBag) : AttributeBag :=
  bag.setAll (httpWrites order http)

end PraxisPolicy
