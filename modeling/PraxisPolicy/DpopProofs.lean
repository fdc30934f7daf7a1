import PraxisPolicy.CanonicalJson
import PraxisPolicy.ReplayGuards

/-!
# Proofs of possession

A proof is checked against the request and then its id is used up at the replay guard, unless the
request has recorded the proof before.
-/

namespace PraxisPolicy

open HashMaps JsonValues TextScanning

inductive Algorithm where
  | hs256 | hs384 | hs512 | es256 | es384 | rs256 | rs384 | rs512 | ps256 | ps384 | ps512 | edDsa
  deriving DecidableEq

def Algorithm.debug : Algorithm → String
  | .hs256 => "HS256"
  | .hs384 => "HS384"
  | .hs512 => "HS512"
  | .es256 => "ES256"
  | .es384 => "ES384"
  | .rs256 => "RS256"
  | .rs384 => "RS384"
  | .rs512 => "RS512"
  | .ps256 => "PS256"
  | .ps384 => "PS384"
  | .ps512 => "PS512"
  | .edDsa => "EdDSA"

structure ProofClaims where
  htm : String
  htu : String
  iat : ℤ
  jti : String
  ath : Option String

inductive DecodeFault where
  | provider
  | other (message : String)

/-- The libraries that read and verify signed texts. -/
class ProofLibrary where
  /-- A key as the header of a text gives it. -/
  Jwk : Type
  /-- A key signatures are verified with. -/
  Key : Type
  /-- The base64url text of a JSON value. -/
  decodeJson : String → Option Json
  /-- `decode_header`: the algorithm and the key. -/
  decodeHeader : String → Except String (Algorithm × Option Jwk)
  fromJwk : Jwk → Except String Key
  /-- `decode`, which verifies the signature. -/
  decode : String → Key → Algorithm → Except DecodeFault ProofClaims
  /-- The base64url text of the SHA-256, unless the backend fails. -/
  hash : String → Option String

structure PopDenial where
  code : String
  reason : String
  deriving DecidableEq

structure PopRequest where
  /-- The issuer that minted the token. -/
  issuer : String
  accessToken : String
  boundThumbprint : String
  proof : Option String
  method : String
  url : String
  now : ℤ
  deriving DecidableEq

def dpopInvalid (reason : String) : PopDenial := ⟨"auth.dpop_invalid", reason⟩

def cryptoDenial : PopDenial := ⟨"policy.crypto_failed", "the DPoP proof could not be checked"⟩

def clip (value : String) : String :=
  let clipped := String.ofList (value.toList.take 120)
  if clipped.utf8ByteSize < value.utf8ByteSize then clipped ++ "…" else clipped

def jsonMember (v : Json) (name : String) : Option Json :=
  match v with
  | .object members => members.lookup name
  | _ => none

def privateJwkMembers : List String := ["d", "p", "q", "dp", "dq", "qi", "oth", "k"]

/-- The members of a key its thumbprint is made of, in order. -/
def requiredJwkMembers (kty : String) : Option (List String) :=
  if kty = "EC" then some ["crv", "kty", "x", "y"]
  else if kty = "RSA" then some ["e", "kty", "n"]
  else if kty = "OKP" then some ["crv", "kty", "x"]
  else none

def canonicalJwk (jwk : Json) : Option String := do
  let kty ← (← jsonMember jwk "kty").asStr
  let names ← requiredJwkMembers kty
  let members ← names.mapM fun name => do
    let value ← (← jsonMember jwk name).asStr
    return quoted name ++ ":" ++ quoted value
  return "\x7b" ++ String.intercalate "," members ++ "\x7d"

def splitScheme : List Char → Option (List Char × List Char)
  | [] => none
  | c :: cs =>
    if ("://".toList).isPrefixOf (c :: cs) then some ([], cs.drop 2)
    else (splitScheme cs).map fun p => (c :: p.1, p.2)

/-- Without query and fragment. -/
def splitAuthority (rest : List Char) : List Char × List Char :=
  let rest := rest.takeWhile fun c => c != '?' && c != '#'
  match splitOnce '/' rest with
  | some (authority, path) => (authority, '/' :: path)
  | none => (rest, ['/'])

def stripSuffix (suffix cs : List Char) : List Char :=
  if suffix.isSuffixOf cs then cs.take (cs.length - suffix.length) else cs

def defaultPort (scheme : String) : Option String :=
  if scheme = "https" then some ":443" else if scheme = "http" then some ":80" else none

def normalizeHtu (url : String) : Option String := do
  let (scheme, rest) ← splitScheme url.toList
  let scheme := toAsciiLowercase (String.ofList scheme)
  let port ← defaultPort scheme
  let (authority, path) := splitAuthority rest
  if authority.isEmpty || authority.contains '@' then none
  else
    let authority := (toAsciiLowercase (String.ofList authority)).toList
    return scheme ++ "://" ++ String.ofList (stripSuffix port.toList authority) ++
      String.ofList path

section Checking

variable [Library] [ProofLibrary]

structure DpopConfig where
  algorithms : List Algorithm
  iatWindowSeconds : ℕ

def jwkThumbprint (jwk : Json) : Except PopDenial String :=
  match canonicalJwk jwk with
  | none => .error (dpopInvalid "the DPoP proof's jwk is not a supported public key")
  | some text =>
    match ProofLibrary.hash text with
    | none => .error cryptoDenial
    | some thumbprint => .ok thumbprint

def debugOption : Option String → String
  | none => "None"
  | some s => "Some(" ++ Library.debugStr s ++ ")"

/-- The part of `check` that reads the header. -/
def proofThumbprint (proof : String) : Except PopDenial String := do
  let some header := ProofLibrary.decodeJson (String.ofList (proof.toList.takeWhile (· != '.')))
    | .error (dpopInvalid "the DPoP proof is not a well-formed JWT")
  let typ := (jsonMember header "typ").bind Json.asStr
  unless typ.any (eqIgnoreAsciiCase · "dpop+jwt") do
    .error (dpopInvalid ("the DPoP proof's typ must be dpop+jwt, got " ++
      debugOption (typ.map clip)))
  if (jsonMember header "crit").isSome then
    .error (dpopInvalid ("the DPoP proof's header names critical extensions (crit), which this " ++
      "verifier does not implement"))
  let some (.object members) := jsonMember header "jwk"
    | .error (dpopInvalid "the DPoP proof's header carries no public key (jwk)")
  let jwk : Json := .object members
  if let some name := privateJwkMembers.find? fun name => (jsonMember jwk name).isSome then
    .error (dpopInvalid ("the DPoP proof's jwk carries the private member '" ++ name ++ "'"))
  jwkThumbprint jwk

def proofClaims (config : DpopConfig) (proof : String) : Except PopDenial ProofClaims := do
  let (alg, jwk) ← (ProofLibrary.decodeHeader proof).mapError fun e =>
    dpopInvalid ("the DPoP proof's header is malformed: " ++ e)
  unless config.algorithms.contains alg do
    .error (dpopInvalid ("the DPoP proof is signed with " ++ alg.debug ++
      ", which this issuer does not accept"))
  let some jwk := jwk | .error (dpopInvalid "the DPoP proof's jwk could not be parsed")
  let key ← (ProofLibrary.fromJwk jwk).mapError fun e =>
    dpopInvalid ("the DPoP proof's jwk is unusable: " ++ e)
  (ProofLibrary.decode proof key alg).mapError fun
    | .provider => cryptoDenial
    | .other e => dpopInvalid ("the DPoP proof did not verify: " ++ e)

structure Checked where
  thumbprint : String
  jti : String
  htu : String
  ath : String
  deriving DecidableEq

def checkClaims (config : DpopConfig) (request : PopRequest) (thumbprint : String)
    (claims : ProofClaims) : Except PopDenial Checked := do
  unless claims.htm = request.method do
    .error (dpopInvalid ("the DPoP proof is for method " ++ clip claims.htm ++
      ", the request is " ++ request.method))
  let some expected := normalizeHtu request.url
    | .error (dpopInvalid ("the request URL '" ++ request.url ++ "' is not usable"))
  unless normalizeHtu claims.htu = some expected do
    .error (dpopInvalid ("the DPoP proof is for " ++ clip claims.htu ++ ", the request is for " ++
      expected))
  let skew := (claims.iat - request.now).natAbs
  if claims.iat ≤ 0 ∨ config.iatWindowSeconds < skew then
    .error (dpopInvalid ("the DPoP proof's iat is " ++ toString skew ++ "s from now, outside the " ++
      toString config.iatWindowSeconds ++ "s window"))
  let some ath := ProofLibrary.hash request.accessToken | .error cryptoDenial
  unless claims.ath = some ath do
    .error (dpopInvalid "the DPoP proof's ath does not match the access token presented with it")
  if claims.jti = "" ∨ 256 < claims.jti.utf8ByteSize then
    .error (dpopInvalid "the DPoP proof's jti must be 1 to 256 characters")
  return ⟨thumbprint, claims.jti, expected, ath⟩

/-- With the settings of one issuer, and the guard it uses proofs up at. -/
structure DpopVerifier where
  config : DpopConfig
  limits : ReplayLimits
  /-- The address of the guard. -/
  replayGuard : ℕ

def DpopVerifier.check (verifier : DpopVerifier) (request : PopRequest) :
    Except PopDenial Checked := do
  let some proof := request.proof
    | .error ⟨"auth.dpop_missing",
        "the token is bound to a key but the request carries no DPoP proof"⟩
  if proof.toList.contains ',' then
    .error (dpopInvalid "the request carries more than one DPoP header")
  let thumbprint ← proofThumbprint proof
  unless thumbprint = request.boundThumbprint do
    .error ⟨"auth.dpop_key_mismatch",
      "the DPoP proof is signed by a key other than the one the token is bound to"⟩
  let claims ← proofClaims verifier.config proof
  checkClaims verifier.config request thumbprint claims

structure PassedClaims (config : DpopConfig) (request : PopRequest) (claims : ProofClaims)
    (checked : Checked) : Prop where
  method : claims.htm = request.method
  url : normalizeHtu request.url = some checked.htu
  htu : normalizeHtu claims.htu = some checked.htu
  recent : (claims.iat - request.now).natAbs ≤ config.iatWindowSeconds
  token : ProofLibrary.hash request.accessToken = some checked.ath
  ath : claims.ath = some checked.ath
  jti : checked.jti = claims.jti

variable {request : PopRequest} {checked : Checked}

omit [Library] in
theorem passedClaims_of_checkClaims {config : DpopConfig}
    {thumbprint : String} {claims : ProofClaims}
    (h : checkClaims config request thumbprint claims = .ok checked) :
    checked.thumbprint = thumbprint ∧ PassedClaims config request claims checked := by
  unfold checkClaims at h
  simp only [bind, Except.bind, pure, Except.pure] at h
  split at h
  case isFalse => cases h
  case isTrue hmethod =>
    split at h
    case h_2 => cases h
    case h_1 expected hurl =>
      split at h
      case isFalse => cases h
      case isTrue hhtu =>
        split at h
        case isTrue => cases h
        case isFalse hrecent =>
          split at h
          case h_2 => cases h
          case h_1 ath htoken =>
            split_ifs at h with hath
            cases h
            refine ⟨rfl, hmethod, hurl, hhtu, ?_, htoken, hath, rfl⟩
            exact not_lt.mp (not_or.mp hrecent).2

end Checking

section Verifying

variable [Library] [ProofLibrary]

structure ProofRecord where
  issuer : String
  thumbprint : String
  jti : String
  htm : String
  htu : String
  ath : String
  replayGuard : ℕ
  expiresAt : ℤ
  binding : KeyBinding
  deriving DecidableEq

def ProofRecord.key (record : ProofRecord) : String :=
  "identity/jwt:dpop_proof\u001f" ++ toString record.replayGuard ++ "\u001f" ++ record.issuer ++
    "\u001f" ++ record.thumbprint ++ "\u001f" ++ record.jti

def ProofRecord.reusable (record stored : ProofRecord) (now : ℤ) : Bool :=
  decide (now < stored.expiresAt) && stored.ath == record.ath && stored.binding == record.binding &&
    stored.htm == record.htm && stored.htu == record.htu && stored.issuer == record.issuer &&
    stored.jti == record.jti && stored.replayGuard == record.replayGuard &&
    stored.thumbprint == record.thumbprint

/-- In the `global_state` of one request. -/
abbrev ProofRecords := HashMap String ProofRecord

def saturatingMulI64 (a b : ℤ) : ℤ := max (-2 ^ 63) (min (2 ^ 63 - 1) (a * b))

def i64Max : ℤ := 2 ^ 63 - 1

namespace DpopVerifier

variable (verifier : DpopVerifier)

def retainedUntil (now : ℤ) : ℤ :=
  let window : ℤ := min verifier.config.iatWindowSeconds i64Max
  saturatingAddI64 now (saturatingAddI64 (saturatingMulI64 window 2) 1)

def record (request : PopRequest) (checked : Checked) : ProofRecord where
  issuer := request.issuer
  binding := ⟨"dpop", checked.thumbprint⟩
  thumbprint := checked.thumbprint
  jti := checked.jti
  htm := request.method
  htu := checked.htu
  ath := checked.ath
  replayGuard := verifier.replayGuard
  expiresAt := verifier.retainedUntil request.now

def replayScope (request : PopRequest) (thumbprint : String) : String :=
  request.issuer ++ "\u001f" ++ thumbprint

def consume (guard : ReplayState) (request : PopRequest) (thumbprint jti : String) :
    Except PopDenial Unit × ReplayState :=
  let used := guard.firstUse verifier.limits (replayScope request thumbprint) jti
    (verifier.retainedUntil request.now) request.now
  match used.1 with
  | .ok true => (.ok (), used.2)
  | .ok false =>
    (.error ⟨"auth.dpop_replay", "the DPoP proof's jti was already used"⟩, used.2)
  | .error reason => (.error ⟨"auth.dpop_replay_unavailable", reason⟩, used.2)

/-- A resolution without a request context. -/
def verify (guard : ReplayState) (request : PopRequest) :
    Except PopDenial KeyBinding × ReplayState :=
  match verifier.check request with
  | .error denial => (.error denial, guard)
  | .ok checked =>
    let used := verifier.consume guard request checked.thumbprint checked.jti
    (used.1.map fun _ => ⟨"dpop", checked.thumbprint⟩, used.2)

def verifyIn (guard : ReplayState) (records : ProofRecords) (request : PopRequest) :
    Except PopDenial KeyBinding × ReplayState × ProofRecords :=
  match verifier.check request with
  | .error denial => (.error denial, guard, records)
  | .ok checked =>
    let record := verifier.record request checked
    if (records.lookup record.key).any fun stored => record.reusable stored request.now then
      (.ok record.binding, guard, records)
    else
      let used := verifier.consume guard request record.thumbprint record.jti
      match used.1 with
      | .error denial => (.error denial, used.2, records)
      | .ok () => (.ok record.binding, used.2, records.insert record.key record)

end DpopVerifier

end Verifying

end PraxisPolicy
