import PraxisPolicy.DecisionLogs
import PraxisPolicy.PathTexts
import PraxisPolicy.TextScanning

/-!
# Paths of Vault secrets

The identity of the caller takes the place of a placeholder in a template.  The check it passes
before lets two identities through that are spellings of one path.
-/

namespace PraxisPolicy

open PathTexts TextScanning

section Refusals

variable {ε α : Type}

def refuseIf (condition : Prop) [Decidable condition] (error : ε) : Except ε Unit :=
  if condition then .error error else .ok ()

@[simp] theorem refuseIf_eq_ok {condition : Prop} [Decidable condition] {error : ε} :
    refuseIf condition error = .ok () ↔ ¬condition := by
  unfold refuseIf
  split_ifs with h <;> simp [h]

@[simp] theorem check_bind_eq_ok {check : Except ε Unit} {next : Except ε α} {result : α} :
    (check >>= fun _ => next) = .ok result ↔ check = .ok () ∧ next = .ok result := by
  cases check <;> simp [bind, Except.bind]

end Refusals

inductive VaultAuthMethod where
  | jwt (identityClaim : String)
  | appRole (identityClaim : Option String)
  deriving DecidableEq, Repr

def VaultAuthMethod.identityClaim : VaultAuthMethod → Option String
  | .jwt claim => some claim
  | .appRole claim => claim

/-- The entries of `auth` in the order they are iterated. -/
structure VaultDelegatorConfig where
  vaultAddr : String
  kvMount : String
  secretPathTemplate : String
  insecureHttp : Bool
  auth : List (String × VaultAuthMethod)
  deriving DecidableEq, Repr

def identityPlaceholder : String := "\x7b\x7bidentity\x7d\x7d"

def pathHasIdentityPlaceholder (template : String) : Bool :=
  decide (identityPlaceholder.toList <:+: template.toList)

def canonicalSubjects : List String := ["user", "client", "caller_workload", "this_workload"]

/-- Without an inbound token there is nothing to forward, and with one the caller's own is. -/
def checkMethod (key : String) : VaultAuthMethod → Except String Unit
  | .jwt _ =>
    refuseIf (key = "this_workload")
      ("this_workload must use approle, not jwt — there is no inbound token to forward")
  | .appRole _ =>
    refuseIf (key ∈ ["user", "client", "caller_workload"])
      ("subject '" ++ key ++ "' must use jwt, not approle " ++
        "— per-caller identity requires forwarding the caller's own token")

def checkAuth (pathUsesIdentity : Bool) (key : String) (method : VaultAuthMethod) :
    Except String Unit := do
  refuseIf (key ∉ canonicalSubjects)
    ("unknown auth subject '" ++ key ++ "' — expected one of: " ++
      "user, client, caller_workload, this_workload")
  checkMethod key method
  refuseIf (pathUsesIdentity ∧ method.identityClaim = none)
    ("auth." ++ key ++ ".identity_claim is required when secret_path_template contains '" ++
      identityPlaceholder ++ "'")
  refuseIf (method.identityClaim = some "")
    ("auth." ++ key ++ ".identity_claim must not be empty")
  refuseIf (key ∈ ["caller_workload", "this_workload"] ∧
      method.identityClaim.any (· ∉ ["spiffe_id", "trust_domain", "client_id"]))
    ("auth." ++ key ++ ".identity_claim must be one of: spiffe_id, trust_domain, client_id")

def checkAuths (pathUsesIdentity : Bool) : List (String × VaultAuthMethod) → Except String Unit
  | [] => .ok ()
  | (key, method) :: rest => do
    checkAuth pathUsesIdentity key method
    checkAuths pathUsesIdentity rest

/-- Given how the credentials of `auth` resolve and whether the cache settings are fit. -/
def VaultDelegatorConfig.new (cfg : VaultDelegatorConfig)
    (approleCreds cache : Except String Unit) : Except String VaultDelegatorConfig := do
  let typed := { cfg with vaultAddr := trim cfg.vaultAddr }
  refuseIf (typed.vaultAddr = "") "vault_addr must not be empty"
  refuseIf (!typed.insecureHttp ∧
      !"https://".toList.isPrefixOf (toAsciiLowercase typed.vaultAddr).toList)
    ("vault_addr must use https (got " ++ typed.vaultAddr ++
      "); set insecure_http: true for dev")
  refuseIf (typed.secretPathTemplate = "") "secret_path_template must not be empty"
  refuseIf (typed.auth = []) "auth map must not be empty — configure at least one subject"
  let pathUsesIdentity := pathHasIdentityPlaceholder typed.secretPathTemplate
  checkAuths pathUsesIdentity typed.auth
  refuseIf (typed.auth.any (·.1 ∈ ["user", "client", "caller_workload"]) ∧ !pathUsesIdentity)
    ("secret_path_template must contain '" ++ identityPlaceholder ++ "' when a per-caller " ++
      "subject (user/client/caller_workload) is configured — " ++
      "without it every caller reads the same secret")
  approleCreds
  cache
  return typed

def identityInvalid (reason : String) : PluginViolation :=
  .new "delegation.identity_invalid" reason

def validateIdentityValue (value : String) : Except PluginViolation Unit := do
  let chars := value.toList
  refuseIf (value = "") (identityInvalid "resolved identity value is empty")
  refuseIf ('\x00' ∈ chars) (identityInvalid "identity value contains null bytes")
  refuseIf ('?' ∈ chars ∨ '#' ∈ chars)
    (identityInvalid "identity value contains query-string or fragment separator")
  let hasTraversal := HasDotSegment charMarks chars
  let hasEncoded := "%2e".toList <:+: chars ∨ "%2E".toList <:+: chars ∨
    "%2f".toList <:+: chars ∨ "%2F".toList <:+: chars
  refuseIf (hasTraversal ∨ hasEncoded)
    (identityInvalid "identity value contains path traversal or encoded separators")

def templatePieces (template : String) : List (List Char) :=
  cutAt identityPlaceholder.toList 0 template.toList

def resolvePath (template identityValue : String) : String :=
  String.ofList (identityValue.toList.intercalate (templatePieces template))

def VaultDelegatorConfig.secretPath (d : VaultDelegatorConfig) (method : VaultAuthMethod)
    (identity : String → Except PluginViolation String) : Except PluginViolation String :=
  if pathHasIdentityPlaceholder d.secretPathTemplate then
    match method.identityClaim with
    | none => .error (.new "delegation.vault_auth_unconfigured"
        "Vault auth entry has no identity_claim for an identity-templated path")
    | some claim => do
      let identityValue ← identity claim
      validateIdentityValue identityValue
      return resolvePath d.secretPathTemplate identityValue
  else .ok d.secretPathTemplate

def VaultDelegatorConfig.kvUrl (d : VaultDelegatorConfig) (path : String) : String :=
  d.vaultAddr ++ "/v1/" ++ d.kvMount ++ "/data/" ++ path

def literalStart (template : String) : List Char := (templatePieces template).headD []

section Accepted

variable {cfg d : VaultDelegatorConfig} {approleCreds cache : Except String Unit}

theorem checkAuths_identityClaim {auth : List (String × VaultAuthMethod)}
    (h : checkAuths true auth = .ok ()) : ∀ entry ∈ auth, entry.2.identityClaim ≠ none := by
  induction auth with
  | nil => simp
  | cons entry rest ih =>
    simp only [checkAuths, checkAuth, check_bind_eq_ok, refuseIf_eq_ok] at h
    intro other hother
    rcases List.mem_cons.1 hother with rfl | hother
    · exact fun hnone => h.1.2.2.1 ⟨trivial, hnone⟩
    · exact ih h.2 other hother

theorem identityClaim_of_new (h : cfg.new approleCreds cache = .ok d)
    (hplaceholder : pathHasIdentityPlaceholder d.secretPathTemplate) :
    ∀ entry ∈ d.auth, entry.2.identityClaim ≠ none := by
  simp only [VaultDelegatorConfig.new, check_bind_eq_ok] at h
  obtain ⟨-, -, -, -, hauth, -, -, -, hd⟩ := h
  obtain rfl := Except.ok.inj hd
  exact checkAuths_identityClaim (hplaceholder ▸ hauth)

theorem validateIdentityValue_eq_ok {value : String} :
    validateIdentityValue value = .ok () ↔
      value ≠ "" ∧ '\x00' ∉ value.toList ∧ ('?' ∉ value.toList ∧ '#' ∉ value.toList) ∧
      ¬HasDotSegment charMarks value.toList ∧ ¬"%2e".toList <:+: value.toList ∧
      ¬"%2E".toList <:+: value.toList ∧ ¬"%2f".toList <:+: value.toList ∧
      ¬"%2F".toList <:+: value.toList := by
  simp only [validateIdentityValue, check_bind_eq_ok, refuseIf_eq_ok, not_or, ne_eq]

theorem validateIdentityValue_ok {value : String} (h : validateIdentityValue value = .ok ()) :
    value.toList ≠ [] ∧ ¬HasDotSegment charMarks value.toList ∧ PlainEscapes value.toList := by
  obtain ⟨hne, -, -, hdots, hdot, hdot', hslash, hslash'⟩ := validateIdentityValue_eq_ok.1 h
  refine ⟨fun hnil => hne (String.toList_inj.1 hnil), hdots, ?_⟩
  intro c a b byte hbyte hin
  obtain ⟨hmarkSlash, hmarkDot⟩ := escaped_mark hbyte
  constructor
  · intro heq
    rcases hmarkSlash heq with htext | htext
    · exact hslash (htext ▸ hin)
    · exact hslash' (htext ▸ hin)
  · intro heq
    rcases hmarkDot heq with htext | htext
    · exact hdot (htext ▸ hin)
    · exact hdot' (htext ▸ hin)

end Accepted

section Isolation

/-- Their paths differ, also as a server decodes them, have no dot segment then, and begin as the
template does. -/
structure PathsIsolated (d : VaultDelegatorConfig) (p q : String) : Prop where
  ne : p ≠ q
  decoded_ne : percentDecode (d.kvUrl p).toList ≠ percentDecode (d.kvUrl q).toList
  no_dots : ¬HasDotSegment byteMarks (percentDecode p.toList) ∧
    ¬HasDotSegment byteMarks (percentDecode q.toList)
  kept : (literalStart d.secretPathTemplate).flatMap String.utf8EncodeChar <+:
      percentDecode p.toList ∧
    (literalStart d.secretPathTemplate).flatMap String.utf8EncodeChar <+: percentDecode q.toList

/-- A letter for the text, with the slashes at its ends. -/
def outline (identityValue : String) : String :=
  String.ofList ((if identityValue.toList.head? = some '/' then ['/'] else []) ++ ['x'] ++
    (if identityValue.toList.getLast? = some '/' then ['/'] else []))

/-- It ends in no escape that the template or the next copy completes. -/
def EscapesClosed (d : VaultDelegatorConfig) (identityValue : String) : Prop :=
  ClosedIn identityValue.toList (templatePieces d.secretPathTemplate)

/-- No two spellings of one text, with their escapes closed and no slash at an end that cuts dots of
the template off. -/
structure SpelledApart (d : VaultDelegatorConfig) (v w : String) : Prop where
  closed : EscapesClosed d v ∧ EscapesClosed d w
  ne : percentDecode v.toList ≠ percentDecode w.toList
  no_dots : ¬HasDotSegment charMarks (resolvePath d.secretPathTemplate (outline v)).toList ∧
    ¬HasDotSegment charMarks (resolvePath d.secretPathTemplate (outline w)).toList

variable {d : VaultDelegatorConfig} {template : String} {value : String}

theorem two_le_length_templatePieces
    (h : pathHasIdentityPlaceholder template) : 2 ≤ (templatePieces template).length :=
  two_le_length_cutAt (by decide) (of_decide_eq_true h)

theorem not_mem_templatePieces (h : '%' ∉ template.toList) :
    ∀ piece ∈ templatePieces template, '%' ∉ piece :=
  fun _ hpiece hmem => h (mem_of_mem_cutAt hpiece hmem)

theorem percentDecode_kvUrl (path : String) :
    percentDecode (d.kvUrl path).toList =
      percentDecode (d.vaultAddr ++ "/v1/" ++ d.kvMount ++ "/data/").toList ++
        percentDecode path.toList := by
  have hsplit : (d.kvUrl path).toList =
      ((d.vaultAddr ++ "/v1/" ++ d.kvMount ++ "/data").toList ++ ['/']) ++ path.toList := by
    simp [VaultDelegatorConfig.kvUrl]
  rw [hsplit, percentDecode_append (not_straddles_slash _ _)]
  simp

theorem percentDecode_resolvePath (hpercent : '%' ∉ d.secretPathTemplate.toList)
    (hclosed : EscapesClosed d value) :
    percentDecode (resolvePath d.secretPathTemplate value).toList =
      (percentDecode value.toList).intercalate
        ((templatePieces d.secretPathTemplate).map
          fun piece => piece.flatMap String.utf8EncodeChar) := by
  rw [resolvePath, String.toList_ofList]
  exact percentDecode_intercalate (not_mem_templatePieces hpercent) hclosed

theorem literalStart_kept (hpercent : '%' ∉ d.secretPathTemplate.toList) (value : String) :
    (literalStart d.secretPathTemplate).flatMap String.utf8EncodeChar <+:
      percentDecode (resolvePath d.secretPathTemplate value).toList := by
  have hpieces := not_mem_templatePieces hpercent
  rw [resolvePath, String.toList_ofList, literalStart]
  generalize templatePieces d.secretPathTemplate = pieces at hpieces
  cases pieces with
  | nil => exact List.nil_prefix
  | cons first rest =>
    have hfirst := hpieces first List.mem_cons_self
    have hstart : ∃ after, value.toList.intercalate (first :: rest) = first ++ after := by
      cases rest with
      | nil => exact ⟨[], by simp⟩
      | cons next rest => exact ⟨_, by rw [List.intercalate_cons_cons, List.append_assoc]⟩
    obtain ⟨after, hafter⟩ := hstart
    rw [List.headD_cons, hafter, percentDecode_append (not_straddles_of_not_mem hfirst),
      percentDecode_of_not_mem hfirst]
    exact List.prefix_append _ _

theorem readAlike_outline (hne : value.toList ≠ [])
    (hdots : ¬HasDotSegment charMarks value.toList) :
    ReadAlike charMarks charMarks value.toList (outline value).toList := by
  rw [outline, String.toList_ofList]
  refine readAlike_of_ends hne (by simp) hdots ?_ ?_ ?_
  · split_ifs <;> decide
  · split_ifs with hhead <;> simp [hhead, charMarks]
  · by_cases hlast : value.toList.getLast? = some '/' <;> simp [hlast, charMarks]

theorem hasDotSegment_decoded (hpercent : '%' ∉ d.secretPathTemplate.toList)
    (hvalid : validateIdentityValue value = .ok ()) (hclosed : EscapesClosed d value) :
    HasDotSegment byteMarks (percentDecode (resolvePath d.secretPathTemplate value).toList) ↔
      HasDotSegment charMarks (resolvePath d.secretPathTemplate (outline value)).toList := by
  obtain ⟨hne, hdots, hescapes⟩ := validateIdentityValue_ok hvalid
  have hdecoded := (readAlike_percentDecode hescapes).intercalate
    (List.forall₂_map_left_iff.2 (List.forall₂_same.2
      fun piece (_ : piece ∈ templatePieces d.secretPathTemplate) => readAlike_utf8 piece))
  have houtline := (readAlike_outline hne hdots).intercalate
    (List.forall₂_same.2 fun piece (_ : piece ∈ templatePieces d.secretPathTemplate) _ =>
      ⟨rfl, rfl⟩)
  rw [percentDecode_resolvePath hpercent hclosed, hdecoded.hasDotSegment, houtline.hasDotSegment,
    resolvePath, String.toList_ofList]

theorem secretPath_of_valid {method : VaultAuthMethod}
    (hplaceholder : pathHasIdentityPlaceholder d.secretPathTemplate)
    (hclaim : method.identityClaim ≠ none) (hvalid : validateIdentityValue value = .ok ()) :
    d.secretPath method (fun _ => .ok value) = .ok (resolvePath d.secretPathTemplate value) := by
  obtain ⟨claim, hclaim⟩ := Option.ne_none_iff_exists'.1 hclaim
  rw [VaultDelegatorConfig.secretPath, if_pos hplaceholder, hclaim]
  simp [bind, Except.bind, hvalid, pure, Except.pure]

theorem decoded_eq_iff (hplaceholder : pathHasIdentityPlaceholder d.secretPathTemplate)
    (hpercent : '%' ∉ d.secretPathTemplate.toList) {v w : String} (hv : EscapesClosed d v)
    (hw : EscapesClosed d w) :
    percentDecode (d.kvUrl (resolvePath d.secretPathTemplate v)).toList =
        percentDecode (d.kvUrl (resolvePath d.secretPathTemplate w)).toList ↔
      percentDecode v.toList = percentDecode w.toList := by
  rw [percentDecode_kvUrl, percentDecode_kvUrl, List.append_cancel_left_eq,
    percentDecode_resolvePath hpercent hv, percentDecode_resolvePath hpercent hw]
  constructor
  · refine fun h => intercalate_inj ?_ h
    rw [List.length_map]
    exact two_le_length_templatePieces hplaceholder
  · exact fun h => by rw [h]

/-- Identities spelled apart read different secrets inside the template's part of the store, and
only those do where no escape is left open. -/
theorem vault_secrets_isolated {cfg : VaultDelegatorConfig} {approleCreds cache : Except String Unit}
    (hnew : cfg.new approleCreds cache = .ok d)
    (hplaceholder : pathHasIdentityPlaceholder d.secretPathTemplate)
    (hpercent : '%' ∉ d.secretPathTemplate.toList)
    {entry entry' : String × VaultAuthMethod} (hentry : entry ∈ d.auth) (hentry' : entry' ∈ d.auth)
    {v w : String} (hv : validateIdentityValue v = .ok ()) (hw : validateIdentityValue w = .ok ())
    (hne : v ≠ w) :
    ∃ p q, d.secretPath entry.2 (fun _ => .ok v) = .ok p ∧
      d.secretPath entry'.2 (fun _ => .ok w) = .ok q ∧
      (SpelledApart d v w → PathsIsolated d p q) ∧
      (EscapesClosed d v → EscapesClosed d w → PathsIsolated d p q → SpelledApart d v w) := by
  have hclaims := identityClaim_of_new hnew hplaceholder
  refine ⟨resolvePath d.secretPathTemplate v, resolvePath d.secretPathTemplate w,
    secretPath_of_valid hplaceholder (hclaims entry hentry) hv,
    secretPath_of_valid hplaceholder (hclaims entry' hentry') hw, ?_, ?_⟩
  · intro hapart
    obtain ⟨hvclosed, hwclosed⟩ := hapart.closed
    refine ⟨?_, ?_, ?_, literalStart_kept hpercent v, literalStart_kept hpercent w⟩
    · intro heq
      have hpaths := String.ofList_injective heq
      exact hne (String.toList_inj.1
        (intercalate_inj (two_le_length_templatePieces hplaceholder) hpaths))
    · exact fun h => hapart.ne ((decoded_eq_iff hplaceholder hpercent hvclosed hwclosed).1 h)
    · rw [hasDotSegment_decoded hpercent hv hvclosed, hasDotSegment_decoded hpercent hw hwclosed]
      exact hapart.no_dots
  · intro hvclosed hwclosed hisolated
    refine ⟨⟨hvclosed, hwclosed⟩, ?_, ?_⟩
    · exact fun h =>
        hisolated.decoded_ne ((decoded_eq_iff hplaceholder hpercent hvclosed hwclosed).2 h)
    · rw [← hasDotSegment_decoded hpercent hv hvclosed,
        ← hasDotSegment_decoded hpercent hw hwclosed]
      exact hisolated.no_dots

def sampleVault : VaultDelegatorConfig where
  vaultAddr := "https://v"
  kvMount := "secret"
  secretPathTemplate := "users/\x7b\x7bidentity\x7d\x7d/github"
  insecureHttp := false
  auth := [("user", .jwt "sub")]

theorem vault_secrets_isolated_sample :
    ∃ p q, sampleVault.secretPath (.jwt "sub") (fun _ => .ok "alice") = .ok p ∧
      sampleVault.secretPath (.jwt "sub") (fun _ => .ok "bob") = .ok q ∧
      PathsIsolated sampleVault p q := by
  have hnew : sampleVault.new (.ok ()) (.ok ()) = .ok sampleVault := by decide +kernel
  have hentry : ("user", .jwt "sub") ∈ sampleVault.auth := List.mem_cons_self
  have halice : validateIdentityValue "alice" = .ok () :=
    validateIdentityValue_eq_ok.2 (by decide +kernel)
  have hbob : validateIdentityValue "bob" = .ok () :=
    validateIdentityValue_eq_ok.2 (by decide +kernel)
  obtain ⟨p, q, hp, hq, hsafe, -⟩ :=
    vault_secrets_isolated hnew (by decide) (by decide) hentry hentry halice hbob (by decide)
  refine ⟨p, q, hp, hq, hsafe ⟨⟨?_, ?_⟩, by decide, by decide, by decide⟩⟩
  · exact closedIn_of_not_mem (by decide) _
  · exact closedIn_of_not_mem (by decide) _

theorem escaped_letter_shares_secret :
    sampleVault.new (.ok ()) (.ok ()) = .ok sampleVault ∧
    sampleVault.secretPath (.jwt "sub") (fun _ => .ok "alice") = .ok "users/alice/github" ∧
    sampleVault.secretPath (.jwt "sub") (fun _ => .ok "%61lice") = .ok "users/%61lice/github" ∧
    percentDecode (sampleVault.kvUrl "users/alice/github").toList =
      percentDecode (sampleVault.kvUrl "users/%61lice/github").toList := by
  refine ⟨by decide +kernel, ?_, ?_, by decide +kernel⟩
  · exact secretPath_of_valid (by decide) (by simp [VaultAuthMethod.identityClaim])
      (validateIdentityValue_eq_ok.2 (by decide +kernel))
  · exact secretPath_of_valid (by decide) (by simp [VaultAuthMethod.identityClaim])
      (validateIdentityValue_eq_ok.2 (by decide +kernel))

end Isolation

end PraxisPolicy
