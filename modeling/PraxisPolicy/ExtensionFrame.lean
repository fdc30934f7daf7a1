import PraxisPolicy.ExtensionTiers

/-!
# What a merge writes besides the change

A plugin that changes only the `custom` slot should leave everything else as it was.  Three slots
are not recombined with the canonical value, and the law fails where that matters.
-/

namespace PraxisPolicy

open HashMaps JsonValues TextScanning

section Credentials

variable [Contents]

/-- Credentials are left alone exactly when the modification is refused, returns none, or returns
the canonical ones. -/
theorem applyModification_rawCredentials_iff (e : Extensions) (caps : Finset String)
    (owned : OwnedExtensions) :
    (e.applyModification caps owned).rawCredentials = e.rawCredentials ↔
      e.accepts caps owned = false ∨ owned.rawCredentials = none ∨
        owned.rawCredentials = e.rawCredentials := by
  unfold Extensions.applyModification
  by_cases haccepts : e.accepts caps owned = true
  · have hmerged : (e.mergeOwned (owned.withTokens caps)).rawCredentials =
        owned.rawCredentials.or e.rawCredentials := rfl
    rw [if_pos haccepts, hmerged]
    cases hraw : owned.rawCredentials with
    | none => simp
    | some raw => simp [haccepts]
  · simp [haccepts]

end Credentials

section Frame

theorem HttpExtension.mergeHeaders_redacted (http view : HttpExtension)
    (hrequest : view.requestHeaders = http.redactedRequestHeaders)
    (hresponse : view.responseHeaders = http.responseHeaders) : http.mergeHeaders view = http := by
  have hheaders : (http.mergeHeaders view).requestHeaders = http.requestHeaders := by
    refine Finmap.ext_lookup fun name => ?_
    unfold mergeHeaders
    split
    · rename_i hempty
      rw [hrequest, redactedRequestHeaders_of_empty hempty]
    · rw [lookup_extend, lookup_retain, lookup_retain, hrequest, redactedRequestHeaders,
        lookup_mapValues]
      cases hsecret : http.secretMarkers.lookup (toAsciiLowercase name) <;>
        simp [isSecret, hsecret]
  cases http
  simp only [mergeHeaders] at hheaders hresponse ⊢
  rw [hheaders, hresponse]

theorem HttpExtension.mergeHeaders_hidden_iff (http view : HttpExtension)
    (hrequest : view.requestHeaders = ∅) (hresponse : view.responseHeaders = ∅) :
    http.mergeHeaders view = http ↔
      (∀ name value, http.requestHeaders.lookup name = some value → http.isSecret name = true) ∧
        http.responseHeaders = ∅ := by
  have hlookup : ∀ name, (http.mergeHeaders view).requestHeaders.lookup name =
      if http.isSecret name then http.requestHeaders.lookup name else none := by
    intro name
    unfold mergeHeaders
    split
    · rename_i hempty
      simp [hrequest, isSecret, hempty]
    · cases hsecret : http.isSecret name <;> simp [hrequest, hsecret]
  constructor
  · intro h
    refine ⟨fun name value hvalue => ?_, ?_⟩
    · have hname := hlookup name
      rw [h, hvalue] at hname
      by_contra hsecret
      simp [hsecret] at hname
    · rw [← hresponse]
      exact (congrArg HttpExtension.responseHeaders h).symm
  · rintro ⟨hsecret, hempty⟩
    have hheaders : (http.mergeHeaders view).requestHeaders = http.requestHeaders := by
      refine Finmap.ext_lookup fun name => ?_
      rw [hlookup]
      cases hvalue : http.requestHeaders.lookup name with
      | none => simp
      | some value => simp [hsecret name value hvalue]
    cases http
    simp only [mergeHeaders] at hheaders hempty ⊢
    rw [hheaders, hresponse, hempty]

variable [Contents] {e : Extensions} {caps : Finset String}

/-- What makes returning a copy of the view change nothing. -/
structure SurvivesFiltering (e : Extensions) (caps : Finset String) : Prop where
  /-- A credential map hidden beside a visible one is empty. -/
  credentials : ∀ raw ∈ e.rawCredentials,
    (canRead .rawCredentialsInbound caps = true → canRead .rawCredentialsDelegated caps = false →
      raw.delegatedTokens = ∅) ∧
    (canRead .rawCredentialsInbound caps = false → canRead .rawCredentialsDelegated caps = true →
      raw.inboundTokens = ∅)
  /-- Hidden headers that may be written, behind a readable query, are secret ones of the request.
  -/
  headers : "write_headers" ∈ caps → canRead .http caps = false →
    Capability.readQuery.name ∈ caps → ∀ http ∈ e.http,
      (∀ name value, http.requestHeaders.lookup name = some value → http.isSecret name = true) ∧
        http.responseHeaders = ∅
  /-- The derived fields of a writable delegation agree with its chain. -/
  delegation : "append_delegation" ∈ caps → canRead .delegation caps = true →
    ∀ d ∈ e.delegation, d.depth = chainDepth d.chain ∧ d.delegated = !d.chain.isEmpty

def Extensions.customOnly (e : Extensions) (caps : Finset String)
    (custom : Option (HashMap String Json)) : OwnedExtensions :=
  { (e.pluginView caps).cowCopy with custom := custom }

omit [Contents] in
theorem ptrEqOpt_filtered {α : Type} (slot : Option (Arc α)) (readable : Bool) :
    ptrEqOpt slot (if readable then slot else none) = true := by
  cases readable <;> cases slot <;> simp [ptrEqOpt]

theorem Extensions.accepts_customOnly (e : Extensions) (caps : Finset String)
    (custom : Option (HashMap String Json)) : e.accepts caps (e.customOnly caps custom) = true := by
  have himmutable : e.validateImmutable (e.customOnly caps custom) = true :=
    List.all_eq_true.2 fun s _ => ptrEqOpt_filtered (e.immutable s) (s.readable caps)
  have hlabels : e.labelsOk (e.customOnly caps custom) caps = true := by
    by_cases hread : "read_labels" ∈ caps
    · have hcan : canRead .securityLabels caps = true := by
        simp [hasReadAccess, slotPolicy, Capability.name, hread]
      cases hsecurity : e.security <;>
        simp [labelsOk, customOnly, cowCopy, pluginView, filterExtensions, hsecurity,
          buildFilteredSecurity, hcan]
    · simp [labelsOk, hread]
  have hconstraint : e.candidateConstraintWriteOk (e.customOnly caps custom) caps = true := by
    simp [candidateConstraintWriteOk, customOnly, cowCopy, pluginView, filterExtensions]
  simp [accepts, himmutable, hlabels, hconstraint]

omit [Contents] in
theorem mergeHttp_filtered_iff (caps : Finset String) (http : Option HttpExtension) (token : Bool) :
    mergeHttp http (http.bind fun http => buildFilteredHttp http caps) token = http ↔
      (token = true → canRead .http caps = false → Capability.readQuery.name ∈ caps →
        ∀ http' ∈ http,
          (∀ name value, http'.requestHeaders.lookup name = some value →
            http'.isSecret name = true) ∧ http'.responseHeaders = ∅) := by
  cases http with
  | none => simp [mergeHttp]
  | some http =>
    rw [Option.bind_some]
    by_cases hheaders : canRead .http caps = true
    · have hsame := HttpExtension.mergeHeaders_redacted http { http with
        requestHeaders := http.redactedRequestHeaders
        query := if Capability.readQuery.name ∈ caps then http.query else none } rfl rfl
      rw [buildFilteredHttp_of_readHeaders hheaders, mergeHttp, Option.getD_some, hsame]
      simp [hheaders]
    rw [Bool.not_eq_true] at hheaders
    by_cases hquery : Capability.readQuery.name ∈ caps
    · have hhidden := HttpExtension.mergeHeaders_hidden_iff http
        { HttpExtension.default with query := http.query } rfl rfl
      rw [buildFilteredHttp_of_readQuery hheaders hquery, mergeHttp, Option.getD_some]
      cases token with
      | false => simp
      | true =>
        rw [if_pos rfl, Option.some_inj, hhidden]
        simp [hheaders, hquery]
    · rw [buildFilteredHttp_of_hidden hheaders hquery]
      simp [mergeHttp, hquery]

omit [Contents] in
theorem mergeSecurity_filtered (security : Option SecurityExtension) (token : Bool) :
    mergeSecurity security (security.map fun security => buildFilteredSecurity security caps)
      token = security := by
  cases security with
  | none => rfl
  | some security =>
    have hlabels : security.labels ∪ (buildFilteredSecurity security caps).labels =
        security.labels := by
      refine Finset.union_eq_left.2 ?_
      unfold buildFilteredSecurity
      split
      · exact subset_rfl
      · exact Finset.empty_subset _
    cases token with
    | false => rfl
    | true =>
      simp only [Option.map_some, mergeSecurity, if_pos, Option.getD_some, hlabels]

theorem mergeDelegation_filtered_iff (delegation : Option (DelegationExtension Contents.detail))
    (readable token : Bool) :
    mergeDelegation delegation (if readable then delegation else none) token = delegation ↔
      (token = true → readable = true →
        ∀ d ∈ delegation, d.depth = chainDepth d.chain ∧ d.delegated = !d.chain.isEmpty) := by
  cases readable with
  | false => simp [mergeDelegation]
  | true =>
    cases delegation with
    | none => simp [mergeDelegation]
    | some d =>
      cases token with
      | false => simp [mergeDelegation]
      | true =>
        obtain ⟨chain, depth, delegated, origin, actor, age⟩ := d
        simp [mergeDelegation, (chainExtends_iff chain chain).2 List.prefix_rfl, eq_comm]

omit [Contents] in
theorem filtered_rawCredentials_iff (raw : Option RawCredentialsExtension)
    (inbound delegated : Bool) :
    ((if inbound || delegated then
        raw.map fun raw => buildFilteredRawCredentials raw inbound delegated
      else none).or raw = raw) ↔
      ∀ r ∈ raw, (inbound = true → delegated = false → r.delegatedTokens = ∅) ∧
        (inbound = false → delegated = true → r.inboundTokens = ∅) := by
  cases raw with
  | none => simp
  | some raw =>
    obtain ⟨inboundTokens, delegatedTokens⟩ := raw
    cases inbound <;> cases delegated <;>
      simp [buildFilteredRawCredentials, eq_comm]

/-- Changing only `custom` of the view changes only `custom`, exactly when the canonical extensions
survive being filtered. -/
theorem custom_only_frame_iff (e : Extensions) (caps : Finset String)
    (custom : Option (HashMap String Json)) :
    e.applyModification caps (e.customOnly caps custom) = { e with custom := custom } ↔
      SurvivesFiltering e caps := by
  rw [Extensions.applyModification, if_pos (e.accepts_customOnly caps custom)]
  have hhttp := mergeHttp_filtered_iff caps e.http (decide ("write_headers" ∈ caps))
  have hdelegation := mergeDelegation_filtered_iff e.delegation (canRead .delegation caps)
    (decide ("append_delegation" ∈ caps))
  have hraw := filtered_rawCredentials_iff e.rawCredentials
    (canRead .rawCredentialsInbound caps) (canRead .rawCredentialsDelegated caps)
  rw [decide_eq_true_eq] at hhttp hdelegation
  constructor
  · intro h
    exact ⟨hraw.1 (congrArg Extensions.rawCredentials h),
      hhttp.1 (congrArg Extensions.http h), hdelegation.1 (congrArg Extensions.delegation h)⟩
  · intro h
    refine Extensions.ext rfl (hhttp.2 h.headers) (mergeSecurity_filtered _ _) rfl
      (hdelegation.2 h.delegation) (hraw.2 h.credentials) rfl rfl rfl rfl rfl

end Frame

section Cases

local instance frameContents : Contents := Contents.plain

def credentialed : Extensions :=
  { Extensions.default with
    rawCredentials := some {
      inboundTokens := Finmap.singleton .user ⟨"eyJ", .header "authorization", .jwt⟩
      delegatedTokens := Finmap.singleton
        ⟨"alice", none, none, "exchange", "billing", "billing", [], .onBehalfOfUser⟩
        ⟨"minted", "authorization", "Bearer ", "billing", [], ⟨0, 0⟩⟩ } }

/-- An empty credential record is returned, and the request goes on without its tokens. -/
theorem applyModification_erases_credentials :
    let owned := { (credentialed.pluginView ∅).cowCopy with
      rawCredentials := some RawCredentialsExtension.default }
    "write_inbound_credentials" ∉ (∅ : Finset String) ∧
      "write_delegated_tokens" ∉ (∅ : Finset String) ∧
      (credentialed.applyModification ∅ owned).rawCredentials = some .default ∧
      credentialed.rawCredentials ≠ some .default := by
  refine ⟨by decide, by decide, rfl, ?_⟩
  decide

/-- A plugin touches only `custom`, and the minted token is gone. -/
theorem customOnly_drops_delegatedTokens :
    let caps : Finset String := {"read_inbound_credentials"}
    let after := credentialed.applyModification caps (credentialed.customOnly caps (some ∅))
    (after.rawCredentials.map fun raw => raw.delegatedTokens) = some ∅ ∧
      after ≠ { credentialed with custom := some ∅ } := by
  refine ⟨by decide, fun h => ?_⟩
  have hraw := congrArg Extensions.rawCredentials h
  revert hraw
  decide

end Cases

end PraxisPolicy
