import PraxisPolicy.CibaApprovals
import PraxisPolicy.DelegationCacheKeys

/-!
# Requests of a token exchange

A delegation becomes one request to the identity provider, or two when it is for the calling
workload.  Delegations that share a cache key send the same requests, up to the order of scopes.
-/

namespace PraxisPolicy

open HashMaps TextScanning

/-- Legal header names, in lower case, and values, each with the text of its error, and base64. -/
class HttpLibrary where
  headerName : String → Except String String
  headerValue : String → Except String String
  base64 : String → String

structure TokenRequest where
  url : String
  headers : HashMap String String
  form : List (String × String)
  timeout : ℕ
  maxResponseBytes : ℕ

structure OAuthDelegator where
  name : String
  tokenEndpoint : String
  clientId : String
  clientSecret : String
  subjectTokenType : String
  actorTokenType : String
  workloadAssertionType : String
  timeout : ℕ
  idempotencyHeader : Option String

def OAuthDelegator.identity (d : OAuthDelegator) : DelegatorIdentity :=
  ⟨d.name, d.tokenEndpoint, d.clientId⟩

def grantTypeTokenExchange : String := "urn:ietf:params:oauth:grant-type:token-exchange"

def grantTypeClientCredentials : String := "client_credentials"

def tokenResponseMaxBytes : ℕ := 64 * 1024

section Scopes

/-- Those that are not asked for yet go behind. -/
def pushScopes (scopes capabilities : List String) : List String :=
  capabilities.foldl (fun scopes cap => if cap ∈ scopes then scopes else scopes ++ [cap]) scopes

variable [Contents]

def scopeList (payload : DelegationPayload) : List String :=
  match payload.routeAttenuation with
  | some att => pushScopes payload.requiredPermissions att.capabilities
  | none => payload.requiredPermissions

def requestedScopes (payload : DelegationPayload) : String := " ".intercalate (scopeList payload)

end Scopes

namespace OAuthDelegator

variable [HttpLibrary]

def header (request : TokenRequest) (name value : String) :
    Except HttpTransportError TokenRequest := do
  let name ← (HttpLibrary.headerName name).mapError fun e => .invalidRequest ("header name: " ++ e)
  let value ← (HttpLibrary.headerValue value).mapError fun e =>
    .invalidRequest ("header value: " ++ e)
  return { request with headers := request.headers.insert name value }

def badRequest (what : String) (e : HttpTransportError) : PluginViolation :=
  .new "delegation.bad_request" (what ++ ": " ++ e.display)

def tokenRequest (d : OAuthDelegator) (form : List (String × String)) :
    Except PluginViolation TokenRequest :=
  Except.mapError (badRequest "could not build the token-endpoint request") do
    let request ← header ⟨d.tokenEndpoint, ∅, form, d.timeout, tokenResponseMaxBytes⟩
      "content-type" "application/x-www-form-urlencoded"
    header request "accept" "application/json"

def withIdempotencyKey (d : OAuthDelegator) (request : TokenRequest) (key : String) :
    Except PluginViolation TokenRequest :=
  match d.idempotencyHeader with
  | none => .ok request
  | some name =>
    (header request name key).mapError
      (badRequest ("could not attach the idempotency header `" ++ name ++ "`"))

def basicAuthHeader (d : OAuthDelegator) : String :=
  "Basic " ++ HttpLibrary.base64 (d.clientId ++ ":" ++ d.clientSecret)

/-- It presents the workload's document. -/
def baseTokenRequest (d : OAuthDelegator) (svid key : String) :
    Except PluginViolation TokenRequest := do
  let request ← d.tokenRequest
    [("grant_type", grantTypeClientCredentials),
      ("client_assertion_type", d.workloadAssertionType), ("client_assertion", svid)]
  d.withIdempotencyKey request key

variable [Contents]

def exchangeForm (d : OAuthDelegator) (payload : DelegationPayload) (subjectToken : String) :
    List (String × String) :=
  let asThisWorkload := payload.subject == .thisWorkload
  let isWorkload := payload.subject == .callerWorkload
  let audience := payload.targetAudience.getD ""
  let scope := requestedScopes payload
  (if asThisWorkload then
    [("grant_type", grantTypeClientCredentials), ("audience", audience)]
  else
    [("grant_type", grantTypeTokenExchange), ("subject_token", subjectToken),
      ("subject_token_type", d.subjectTokenType), ("audience", audience)]) ++
  (if scope ≠ "" then [("scope", scope)] else []) ++
  -- a workload is the subject itself, and client credentials know no actor
  (if payload.actorToken ≠ "" ∧ !asThisWorkload ∧ !isWorkload then
    [("actor_token", payload.actorToken), ("actor_token_type", d.actorTokenType)]
  else [])

def exchangeRequest (d : OAuthDelegator) (payload : DelegationPayload)
    (subjectToken key : String) : Except PluginViolation TokenRequest := do
  let request ← d.tokenRequest (d.exchangeForm payload subjectToken)
  let request ← (header request "authorization" d.basicAuthHeader).mapError
    (badRequest "could not attach client credentials")
  d.withIdempotencyKey request key

end OAuthDelegator

/-- A fresh key for each leg, whether its intent was recorded, without which nothing is sent, and
the base token of the first leg. -/
structure ExchangeAttempt where
  baseKey : String
  key : String
  baseRecorded : Bool
  recorded : Bool
  baseToken : Option String

section Exchange

variable [HttpLibrary] [Contents]

/-- A request goes out when it could be built and its intent is recorded. -/
def sent (recorded : Bool) : Except PluginViolation TokenRequest → List TokenRequest
  | .ok request => if recorded then [request] else []
  | .error _ => []

def OAuthDelegator.exchange (d : OAuthDelegator) (payload : DelegationPayload)
    (attempt : ExchangeAttempt) : List TokenRequest :=
  if payload.subject = .callerWorkload then
    let first := sent attempt.baseRecorded (d.baseTokenRequest payload.bearerToken attempt.baseKey)
    -- without an answer to the first leg there is no second
    match first, attempt.baseToken with
    | [], _ => []
    | first, none => first
    | first, some token =>
      first ++ sent attempt.recorded (d.exchangeRequest payload token attempt.key)
  else
    sent attempt.recorded (d.exchangeRequest payload payload.bearerToken attempt.key)

end Exchange

section Comparison

def scopeTokens (scope : String) : List (List Char) :=
  (scope.toList.splitOnP isWhitespace).filter (· ≠ [])

/-- No parameter asks for none. -/
def TokenRequest.scopes (request : TokenRequest) : Finset (List Char) :=
  (scopeTokens ((request.form.lookup "scope").getD "")).toFinset

/-- Up to the order and repetition of scopes. -/
structure SameUpToScopes (r s : TokenRequest) : Prop where
  url : r.url = s.url
  headers : r.headers = s.headers
  form : r.form.filter (·.1 ≠ "scope") = s.form.filter (·.1 ≠ "scope")
  scopes : r.scopes = s.scopes
  timeout : r.timeout = s.timeout
  maxResponseBytes : r.maxResponseBytes = s.maxResponseBytes

/-- Both give the same error, or related values. -/
inductive SameOutcome {ε α : Type} (R : α → α → Prop) : Except ε α → Except ε α → Prop
  | error (e : ε) : SameOutcome R (.error e) (.error e)
  | ok {x y : α} (h : R x y) : SameOutcome R (.ok x) (.ok y)

theorem SameOutcome.bind {ε α : Type} {R : α → α → Prop} {x y : Except ε α}
    {f g : α → Except ε α} (h : SameOutcome R x y)
    (hnext : ∀ a b, R a b → SameOutcome R (f a) (g b)) : SameOutcome R (x >>= f) (y >>= g) := by
  cases h with
  | error e => exact .error e
  | ok h => exact hnext _ _ h

theorem SameOutcome.mapError {ε ε' α : Type} {R : α → α → Prop} {x y : Except ε α}
    (f : ε → ε') (h : SameOutcome R x y) : SameOutcome R (x.mapError f) (y.mapError f) := by
  cases h with
  | error e => exact .error (f e)
  | ok h => exact .ok h

theorem mem_pushScopes {scopes capabilities : List String} {scope : String} :
    scope ∈ pushScopes scopes capabilities ↔ scope ∈ scopes ∨ scope ∈ capabilities := by
  induction capabilities generalizing scopes with
  | nil => simp [pushScopes]
  | cons cap capabilities ih =>
    rw [pushScopes, List.foldl_cons, ← pushScopes, ih, List.mem_cons]
    split_ifs with hcap
    · constructor
      · rintro (h | h)
        · exact .inl h
        · exact .inr (.inr h)
      · rintro (h | rfl | h)
        · exact .inl h
        · exact .inl hcap
        · exact .inr h
    · rw [List.mem_append, List.mem_singleton, or_assoc]

theorem scopeTokens_intercalate (scopes : List String) :
    scopeTokens (" ".intercalate scopes) = scopes.flatMap scopeTokens := by
  induction scopes with
  | nil => rfl
  | cons scope scopes ih =>
    cases scopes with
    | nil => simp [scopeTokens]
    | cons next scopes =>
      have hjoin : (" ".intercalate (scope :: next :: scopes)).toList =
          scope.toList ++ ' ' :: (" ".intercalate (next :: scopes)).toList := by
        simp [String.toList_intercalate]
      rw [List.flatMap_cons, ← ih, scopeTokens, hjoin,
        List.splitOnP_append_cons _ _ (by decide), List.filter_append]
      rfl

theorem SameOutcome.sent {x y : Except PluginViolation TokenRequest} (recorded : Bool)
    (h : SameOutcome SameUpToScopes x y) :
    List.Forall₂ SameUpToScopes (sent recorded x) (sent recorded y) := by
  cases h with
  | error e => exact .nil
  | ok h =>
    cases recorded with
    | false => exact .nil
    | true => exact .cons h .nil

theorem SameUpToScopes.refl (r : TokenRequest) : SameUpToScopes r r :=
  ⟨rfl, rfl, rfl, rfl, rfl, rfl⟩

section Forms

variable [Contents] {p q : DelegationPayload}

theorem mem_scopeList {scope : String} :
    scope ∈ scopeList p ↔ scope ∈ p.requiredPermissions ∨
      ∃ att ∈ p.routeAttenuation, scope ∈ att.capabilities := by
  unfold scopeList
  cases p.routeAttenuation with
  | none => simp
  | some att => simp [mem_pushScopes]

theorem SameDelegation.mem_scopeList (h : SameDelegation p q) {scope : String} :
    scope ∈ scopeList p ↔ scope ∈ scopeList q := by
  have hrequired : scope ∈ p.requiredPermissions ↔ scope ∈ q.requiredPermissions := by
    rw [← List.mem_toFinset, h.requiredPermissions, List.mem_toFinset]
  rw [PraxisPolicy.mem_scopeList, PraxisPolicy.mem_scopeList, hrequired]
  have hrel := h.routeAttenuation
  generalize p.routeAttenuation = a, q.routeAttenuation = b at hrel ⊢
  cases hrel with
  | none => rfl
  | @some a b hsame =>
    have hcapabilities : scope ∈ a.capabilities ↔ scope ∈ b.capabilities := by
      rw [← List.mem_toFinset, hsame.1, List.mem_toFinset]
    simp [hcapabilities]

theorem lookup_scope_exchangeForm (d : OAuthDelegator) (payload : DelegationPayload)
    (subjectToken : String) :
    ((d.exchangeForm payload subjectToken).lookup "scope").getD "" = requestedScopes payload := by
  unfold OAuthDelegator.exchangeForm
  simp only [List.lookup_append]
  by_cases hscope : requestedScopes payload = ""
  · split_ifs <;> simp [List.lookup_cons, hscope]
  · split_ifs <;> simp [List.lookup_cons]

end Forms

variable [HttpLibrary] {r s : TokenRequest}

theorem SameUpToScopes.header (h : SameUpToScopes r s) (name value : String) :
    SameOutcome SameUpToScopes (OAuthDelegator.header r name value)
      (OAuthDelegator.header s name value) := by
  unfold OAuthDelegator.header
  cases HttpLibrary.headerName name with
  | error e => exact .error _
  | ok name =>
    cases HttpLibrary.headerValue value with
    | error e => exact .error _
    | ok value =>
      exact .ok { h with headers := congrArg (fun headers => headers.insert name value) h.headers }

variable {d : OAuthDelegator}

theorem withIdempotencyKey_congr {key key' : String}
    (h : ∀ name ∈ d.idempotencyHeader, key = key') (request : TokenRequest) :
    d.withIdempotencyKey request key = d.withIdempotencyKey request key' := by
  unfold OAuthDelegator.withIdempotencyKey
  cases hname : d.idempotencyHeader with
  | none => rfl
  | some name => rw [h name hname]

variable [Contents] {p q : DelegationPayload}

theorem SameDelegation.tokenRequest (h : SameDelegation p q) (d : OAuthDelegator)
    (subjectToken : String) :
    SameOutcome SameUpToScopes (d.tokenRequest (d.exchangeForm p subjectToken))
      (d.tokenRequest (d.exchangeForm q subjectToken)) := by
  have hplain : SameUpToScopes
      ⟨d.tokenEndpoint, ∅, d.exchangeForm p subjectToken, d.timeout, tokenResponseMaxBytes⟩
      ⟨d.tokenEndpoint, ∅, d.exchangeForm q subjectToken, d.timeout, tokenResponseMaxBytes⟩ := by
    have hnone (payload : DelegationPayload) :
        (if requestedScopes payload ≠ "" then [("scope", requestedScopes payload)] else []).filter
          (·.1 ≠ "scope") = [] := by
      split_ifs <;> rfl
    refine ⟨rfl, rfl, ?_, ?_, rfl, rfl⟩
    · simp only [OAuthDelegator.exchangeForm, List.filter_append, hnone, h.subject,
        h.targetAudience, h.actorToken]
    rw [TokenRequest.scopes, TokenRequest.scopes, lookup_scope_exchangeForm,
      lookup_scope_exchangeForm]
    ext token
    simp only [requestedScopes, scopeTokens_intercalate, List.mem_toFinset, List.mem_flatMap,
      h.mem_scopeList]
  refine SameOutcome.mapError _ ((hplain.header _ _).bind fun r s hsame => ?_)
  exact hsame.header _ _

theorem SameDelegation.exchangeRequest (h : SameDelegation p q) (d : OAuthDelegator)
    (subjectToken key : String) :
    SameOutcome SameUpToScopes (d.exchangeRequest p subjectToken key)
      (d.exchangeRequest q subjectToken key) := by
  refine (h.tokenRequest d subjectToken).bind fun r s hsame => ?_
  refine ((hsame.header _ _).mapError _).bind fun r s hsame => ?_
  unfold OAuthDelegator.withIdempotencyKey
  cases d.idempotencyHeader with
  | none => exact .ok hsame
  | some name => exact (hsame.header name key).mapError _

/-- They differ at most in what does not reach the provider: keys count where a header carries them,
the base token on the calling workload's path. -/
structure AttemptsAlike (d : OAuthDelegator) (payload : DelegationPayload)
    (a b : ExchangeAttempt) : Prop where
  keys : ∀ name ∈ d.idempotencyHeader, a.baseKey = b.baseKey ∧ a.key = b.key
  recorded : a.baseRecorded = b.baseRecorded ∧ a.recorded = b.recorded
  baseToken : payload.subject = .callerWorkload → a.baseToken = b.baseToken

theorem exchange_congr {a b : ExchangeAttempt} (h : AttemptsAlike d p a b) :
    d.exchange p a = d.exchange p b := by
  have hbase := withIdempotencyKey_congr fun name hname => (h.keys name hname).1
  have hkey := withIdempotencyKey_congr fun name hname => (h.keys name hname).2
  unfold OAuthDelegator.exchange OAuthDelegator.baseTokenRequest OAuthDelegator.exchangeRequest
  simp only [hbase, hkey, h.recorded.1, h.recorded.2]
  split_ifs with hworkload
  · rw [h.baseToken hworkload]
  · rfl

theorem SameDelegation.exchange (h : SameDelegation p q) (d : OAuthDelegator)
    (attempt : ExchangeAttempt) :
    List.Forall₂ SameUpToScopes (d.exchange p attempt) (d.exchange q attempt) := by
  unfold OAuthDelegator.exchange
  rw [h.subject, h.bearerToken]
  have hrefl (requests : List TokenRequest) :
      List.Forall₂ SameUpToScopes requests requests :=
    List.forall₂_same.2 fun r _ => .refl r
  split_ifs
  · dsimp only
    split
    · exact .nil
    · exact hrefl _
    · exact List.rel_append (hrefl _) ((h.exchangeRequest d _ _).sent _)
  · exact (h.exchangeRequest d _ _).sent _

/-- Delegations with one key make the delegator ask for the same, up to order and repetition; one
without a credential or with a resource template has no key. -/
theorem delegation_key_isolates {Tag : Type} {secret : List UInt8 → Tag}
    (hsecret : Function.Injective secret) :
    (∀ (d e : DelegatorIdentity) (p q : DelegationPayload) (key : Tag),
      ShortComponents d p → ShortComponents e q →
      derive secret d p = .ok key → derive secret e q = .ok key →
        d = e ∧ SameDelegation p q) ∧
    (∀ (d : OAuthDelegator) (p q : DelegationPayload) (key : Tag),
      ShortComponents d.identity p → ShortComponents d.identity q →
      derive secret d.identity p = .ok key → derive secret d.identity q = .ok key →
      ∀ a b, AttemptsAlike d p a b →
        List.Forall₂ SameUpToScopes (d.exchange p a) (d.exchange q b)) ∧
    ∀ (d : DelegatorIdentity) (p : DelegationPayload),
      (p.bearerToken = "" ∧ p.subject ≠ .thisWorkload) ∨
        (∃ att ∈ p.routeAttenuation, att.resourceTemplate ≠ none) →
      ∀ key, derive secret d p ≠ .ok key := by
  refine ⟨?_, ?_, ?_⟩
  · intro d e p q key hp hq hkey hkey'
    exact derive_inj hsecret hp hq hkey hkey'
  · intro d p q key hp hq hkey hkey' a b halike
    rw [exchange_congr halike]
    exact (derive_inj hsecret hp hq hkey hkey').2.exchange d b
  · intro d p hrefused key hkey
    obtain ⟨hanchor, htemplate, -⟩ := derive_eq_ok.1 hkey
    rcases hrefused with hempty | ⟨att, hatt, hsome⟩
    · exact hanchor hempty
    · refine htemplate ((Option.any_eq_true _ _).2 ⟨att, hatt, ?_⟩)
      exact Option.isSome_iff_ne_none.2 hsome

end Comparison

section Samples

local instance requestContents : Contents := .plain

local instance requestLibrary : HttpLibrary where
  headerName := .ok
  headerValue := .ok
  base64 := id

def sampleDelegator : OAuthDelegator where
  name := "idp"
  tokenEndpoint := "https://idp/token"
  clientId := "c"
  clientSecret := "s"
  subjectTokenType := "access_token"
  actorTokenType := "jwt"
  workloadAssertionType := "spiffe"
  timeout := 5
  idempotencyHeader := some "idempotency-key"

def sampleDelegation (permissions : List String) : DelegationPayload :=
  { DelegationPayload.new "t" "hr" with
    targetAudience := some "hr"
    requiredPermissions := permissions }

def sampleAttempt (key : String) : ExchangeAttempt := ⟨"", key, true, true, none⟩

theorem sampleDelegation_short {permissions : List String} (h : ShortSet permissions) :
    ShortComponents sampleDelegator.identity (sampleDelegation permissions) where
  instanceName := by decide
  tokenEndpoint := by decide
  clientId := by decide
  bearerToken := (by decide : ShortText "t")
  actorRole := by simp [sampleDelegation, DelegationPayload.new]
  actorToken := (by decide : ShortText "")
  targetName := (by decide : ShortText "hr")
  targetType := by simp [sampleDelegation, DelegationPayload.new, targetTypeTag]
  targetAudience := (by decide : ∀ audience ∈ some "hr", ShortText audience)
  requiredPermissions := h
  trustDomain := by simp [sampleDelegation, DelegationPayload.new]
  routeAttenuation := by simp [sampleDelegation, DelegationPayload.new]

theorem delegation_key_isolates_sample :
    sampleDelegator.exchange (sampleDelegation ["a", "b"]) (sampleAttempt "k") ≠ [] ∧
    List.Forall₂ SameUpToScopes
      (sampleDelegator.exchange (sampleDelegation ["a", "b"]) (sampleAttempt "k"))
      (sampleDelegator.exchange (sampleDelegation ["b", "a", "b"]) (sampleAttempt "k")) := by
  refine ⟨by decide, ?_⟩
  have hset : KeyEncoder.set ["b", "a", "b"] = KeyEncoder.set ["a", "b"] := by
    have hsame : ["b", "a", "b"].toFinset = ["a", "b"].toFinset := by decide
    rw [KeyEncoder.set, KeyEncoder.set, hsame]
  have hinput : keyInput sampleDelegator.identity (sampleDelegation ["b", "a", "b"]) =
      keyInput sampleDelegator.identity (sampleDelegation ["a", "b"]) := by
    simp only [keyInput, sampleDelegation, hset]
  have hisolates := delegation_key_isolates (Function.injective_id (α := List UInt8))
  refine hisolates.2.1 sampleDelegator _ _
    (keyInput sampleDelegator.identity (sampleDelegation ["a", "b"]))
    (sampleDelegation_short (by decide)) (sampleDelegation_short (by decide)) ?_ ?_
    (sampleAttempt "k") (sampleAttempt "k") ⟨fun _ _ => ⟨rfl, rfl⟩, ⟨rfl, rfl⟩, fun _ => rfl⟩
  · exact derive_eq_ok.2 ⟨by decide, by decide, rfl⟩
  · exact derive_eq_ok.2 ⟨by decide, by decide, hinput⟩

/-- Where a header carries the key of the attempt, two requests differ. -/
theorem idempotency_key_in_request :
    derive id sampleDelegator.identity (sampleDelegation ["a"]) =
      .ok (keyInput sampleDelegator.identity (sampleDelegation ["a"])) ∧
    ¬List.Forall₂ SameUpToScopes
      (sampleDelegator.exchange (sampleDelegation ["a"]) (sampleAttempt "k1"))
      (sampleDelegator.exchange (sampleDelegation ["a"]) (sampleAttempt "k2")) := by
  refine ⟨derive_eq_ok.2 ⟨by decide, by decide, rfl⟩, ?_⟩
  intro h
  cases h with
  | cons hfirst _ =>
    have hkey := congrArg (fun headers => headers.lookup "idempotency-key") hfirst.headers
    exact absurd hkey (by decide)

end Samples

end PraxisPolicy
