import PraxisPolicy.ExtensionMerge
import PraxisPolicy.InformationOrder

/-!
# What a view reveals

Extensions that agree on the granted fields give equal views, and a larger set of capabilities
shows all that a smaller one does.
-/

namespace PraxisPolicy

open HashMaps JsonValues TextScanning InformationOrder

section Agreement

structure SubjectsAgree (caps : Finset String) (s₁ s₂ : SubjectExtension) : Prop where
  identity : s₁.id = s₂.id ∧ s₁.subjectType = s₂.subjectType ∧ s₁.keyBinding = s₂.keyBinding
  roles : Capability.readRoles.name ∈ caps → s₁.roles = s₂.roles
  permissions : Capability.readPermissions.name ∈ caps → s₁.permissions = s₂.permissions
  teams : Capability.readTeams.name ∈ caps → s₁.teams = s₂.teams
  claims : Capability.readClaims.name ∈ caps → s₁.claims = s₂.claims

structure SecurityAgrees (caps : Finset String) (s₁ s₂ : SecurityExtension) : Prop where
  unrestricted : s₁.objects = s₂.objects ∧ s₁.data = s₂.data ∧
    s₁.classification = s₂.classification ∧ s₁.authMethod = s₂.authMethod
  labels : canRead .securityLabels caps = true → s₁.labels = s₂.labels
  subject : canRead .securitySubject caps = true →
    Option.Rel (SubjectsAgree caps) s₁.subject s₂.subject
  client : canRead .securityClient caps = true → s₁.client = s₂.client
  callerWorkload : canRead .securityCallerWorkload caps = true →
    s₁.callerWorkload = s₂.callerWorkload
  thisWorkload : canRead .securityThisWorkload caps = true → s₁.thisWorkload = s₂.thisWorkload

structure HeadersAgreeUpToSecrets (h₁ h₂ : HttpExtension) : Prop where
  names : ∀ name, (h₁.requestHeaders.lookup name).isSome = (h₂.requestHeaders.lookup name).isSome
  values : ∀ name, h₁.isSecret name = false →
    h₁.requestHeaders.lookup name = h₂.requestHeaders.lookup name
  markers : h₁.secretMarkers = h₂.secretMarkers
  responseHeaders : h₁.responseHeaders = h₂.responseHeaders
  request : h₁.clientAddress = h₂.clientAddress ∧ h₁.method = h₂.method ∧ h₁.path = h₂.path ∧
    h₁.host = h₂.host ∧ h₁.scheme = h₂.scheme
  status : h₁.status = h₂.status

structure HttpAgrees (caps : Finset String) (h₁ h₂ : HttpExtension) : Prop where
  headers : canRead .http caps = true → HeadersAgreeUpToSecrets h₁ h₂
  query : Capability.readQuery.name ∈ caps → h₁.query = h₂.query

structure CredentialsAgree (caps : Finset String) (r₁ r₂ : RawCredentialsExtension) : Prop where
  inbound : canRead .rawCredentialsInbound caps = true → r₁.inboundTokens = r₂.inboundTokens
  delegated : canRead .rawCredentialsDelegated caps = true →
    r₁.delegatedTokens = r₂.delegatedTokens

variable [Contents]

structure AgreeOn (caps : Finset String) (e₁ e₂ : Extensions) : Prop where
  immutable : ∀ s : ImmutableSlot, s.readable caps = true → e₁.immutable s = e₂.immutable s
  http : canRead .http caps = true ∨ Capability.readQuery.name ∈ caps →
    Option.Rel (HttpAgrees caps) e₁.http e₂.http
  security : Option.Rel (SecurityAgrees caps) e₁.security e₂.security
  candidateConstraint : e₁.candidateConstraint = e₂.candidateConstraint
  delegation : canRead .delegation caps = true → e₁.delegation = e₂.delegation
  rawCredentials :
    canRead .rawCredentialsInbound caps = true ∨ canRead .rawCredentialsDelegated caps = true →
      Option.Rel (CredentialsAgree caps) e₁.rawCredentials e₂.rawCredentials
  custom : e₁.custom = e₂.custom
  httpTransport : Capability.performHttp.name ∈ caps → e₁.httpTransport = e₂.httpTransport

end Agreement

section Noninterference

variable {caps : Finset String} {h₁ h₂ : HttpExtension}

theorem canRead_securitySubject (caps : Finset String) :
    canRead .securitySubject caps = hasAnySubjectCapability caps := by
  have hsubject : hasAnySubjectCapability caps =
      (decide (Capability.readSubject.name ∈ caps) || hasAnySubjectCapability caps) := by
    by_cases h : Capability.readSubject.name ∈ caps <;> simp [hasAnySubjectCapability, h]
  simpa [hasReadAccess, slotPolicy] using hsubject.symm

theorem SubjectsAgree.view_eq {s₁ s₂ : SubjectExtension} (h : SubjectsAgree caps s₁ s₂) :
    buildFilteredSubject s₁ caps = buildFilteredSubject s₂ caps := by
  obtain ⟨hid, htype, hbinding⟩ := h.identity
  unfold buildFilteredSubject
  rw [hid, htype, hbinding, gate_congr h.roles, gate_congr h.permissions, gate_congr h.teams,
    gate_congr h.claims]

theorem SecurityAgrees.view_eq {s₁ s₂ : SecurityExtension} (h : SecurityAgrees caps s₁ s₂) :
    buildFilteredSecurity s₁ caps = buildFilteredSecurity s₂ caps := by
  obtain ⟨hobjects, hdata, hclass, hauth⟩ := h.unrestricted
  have hsubject : hasAnySubjectCapability caps = true →
      (s₁.subject.map fun subject => buildFilteredSubject subject caps) =
        s₂.subject.map fun subject => buildFilteredSubject subject caps := by
    intro hany
    rw [Option.map_eq_bind, Option.map_eq_bind]
    refine bind_eq_of_rel (h.subject ((canRead_securitySubject caps).trans hany)) ?_
    intro subject₁ subject₂ hagree
    exact congrArg some hagree.view_eq
  unfold buildFilteredSecurity
  rw [hobjects, hdata, hclass, hauth, gate_congr h.labels, gate_congr hsubject,
    gate_congr h.client, gate_congr h.callerWorkload, gate_congr h.thisWorkload]

theorem HeadersAgreeUpToSecrets.redacted_eq (h : HeadersAgreeUpToSecrets h₁ h₂) :
    h₁.redactedRequestHeaders = h₂.redactedRequestHeaders := by
  refine Finmap.ext_lookup fun name => ?_
  rw [HttpExtension.redactedRequestHeaders, HttpExtension.redactedRequestHeaders,
    lookup_mapValues, lookup_mapValues, ← h.markers]
  cases hmarker : h₁.secretMarkers.lookup (toAsciiLowercase name) with
  | none => rw [h.values name (by simp [HttpExtension.isSecret, hmarker])]
  | some marker =>
    have hname := h.names name
    cases h₁value : h₁.requestHeaders.lookup name <;>
      cases h₂value : h₂.requestHeaders.lookup name <;> simp_all

theorem HttpAgrees.view_eq (h : HttpAgrees caps h₁ h₂) :
    buildFilteredHttp h₁ caps = buildFilteredHttp h₂ caps := by
  by_cases hheaders : canRead .http caps = true
  · have hagree := h.headers hheaders
    obtain ⟨hclient, hmethod, hpath, hhost, hscheme⟩ := hagree.request
    rw [buildFilteredHttp_of_readHeaders hheaders, buildFilteredHttp_of_readHeaders hheaders,
      hagree.redacted_eq, hagree.markers, hagree.responseHeaders, hagree.status, hclient,
      hmethod, hpath, hhost, hscheme, gate_congr h.query]
  rw [Bool.not_eq_true] at hheaders
  by_cases hquery : Capability.readQuery.name ∈ caps
  · rw [buildFilteredHttp_of_readQuery hheaders hquery,
      buildFilteredHttp_of_readQuery hheaders hquery, h.query hquery]
  · rw [buildFilteredHttp_of_hidden hheaders hquery, buildFilteredHttp_of_hidden hheaders hquery]

variable [Contents] {e₁ e₂ : Extensions}

theorem AgreeOn.http_view_eq (h : AgreeOn caps e₁ e₂) :
    (filterExtensions e₁ caps).http = (filterExtensions e₂ caps).http := by
  have hview : canRead .http caps = true ∨ Capability.readQuery.name ∈ caps →
      (filterExtensions e₁ caps).http = (filterExtensions e₂ caps).http :=
    fun hopen => bind_eq_of_rel (h.http hopen) fun _ _ hagree => hagree.view_eq
  by_cases hheaders : canRead .http caps = true
  · exact hview (.inl hheaders)
  by_cases hquery : Capability.readQuery.name ∈ caps
  · exact hview (.inr hquery)
  -- neither is granted: both views lack the record
  rw [Bool.not_eq_true] at hheaders
  have hnone : ∀ e : Extensions, (filterExtensions e caps).http = none := by
    intro e
    cases hhttp : e.http <;>
      simp [filterExtensions, hhttp, buildFilteredHttp_of_hidden hheaders hquery]
  rw [hnone, hnone]

theorem AgreeOn.rawCredentials_view_eq (h : AgreeOn caps e₁ e₂) :
    (filterExtensions e₁ caps).rawCredentials = (filterExtensions e₂ caps).rawCredentials := by
  refine gate_congr fun hopen => ?_
  rw [Option.map_eq_bind, Option.map_eq_bind]
  refine bind_eq_of_rel (h.rawCredentials (by simpa using hopen)) ?_
  intro raw₁ raw₂ hagree
  refine congrArg some ?_
  dsimp only [buildFilteredRawCredentials]
  rw [gate_congr hagree.inbound, gate_congr hagree.delegated]

theorem AgreeOn.security_view_eq (h : AgreeOn caps e₁ e₂) :
    (filterExtensions e₁ caps).security = (filterExtensions e₂ caps).security := by
  unfold filterExtensions
  rw [Option.map_eq_bind, Option.map_eq_bind]
  exact bind_eq_of_rel h.security fun _ _ hagree => congrArg some hagree.view_eq

end Noninterference

section Monotonicity

structure SubjectLe (s s' : SubjectExtension) : Prop where
  identity : s.id = s'.id ∧ s.subjectType = s'.subjectType ∧ s.keyBinding = s'.keyBinding
  roles : s.roles ⊆ s'.roles
  permissions : s.permissions ⊆ s'.permissions
  teams : s.teams ⊆ s'.teams
  claims : MapLe s.claims s'.claims

structure SecurityLe (s s' : SecurityExtension) : Prop where
  unrestricted : s.objects = s'.objects ∧ s.data = s'.data ∧
    s.classification = s'.classification ∧ s.authMethod = s'.authMethod
  labels : s.labels ⊆ s'.labels
  subject : OptionLe SubjectLe s.subject s'.subject
  client : OptionLe Eq s.client s'.client
  callerWorkload : OptionLe Eq s.callerWorkload s'.callerWorkload
  thisWorkload : OptionLe Eq s.thisWorkload s'.thisWorkload

structure HttpLe (h h' : HttpExtension) : Prop where
  requestHeaders : MapLe h.requestHeaders h'.requestHeaders
  responseHeaders : MapLe h.responseHeaders h'.responseHeaders
  markers : MapLe h.secretMarkers h'.secretMarkers
  clientAddress : OptionLe Eq h.clientAddress h'.clientAddress
  status : OptionLe Eq h.status h'.status
  method : OptionLe Eq h.method h'.method
  path : OptionLe Eq h.path h'.path
  query : OptionLe Eq h.query h'.query
  host : OptionLe Eq h.host h'.host
  scheme : OptionLe Eq h.scheme h'.scheme

structure CredentialsLe (r r' : RawCredentialsExtension) : Prop where
  inbound : MapLe r.inboundTokens r'.inboundTokens
  delegated : MapLe r.delegatedTokens r'.delegatedTokens

/-- A usable transport tells more than one that is not permitted, and that more than none. -/
def TransportLe {T : Type} : HttpTransportSlot T → HttpTransportSlot T → Prop
  | .notInstalled, _ => True
  | .notPermitted, .notInstalled => False
  | .notPermitted, _ => True
  | .available t, t' => t' = .available t

variable [Contents]

/-- What the first view tells, the second tells too. -/
structure ViewLe (v v' : Extensions) : Prop where
  immutable : ∀ s, OptionLe Eq (v.immutable s) (v'.immutable s)
  http : OptionLe HttpLe v.http v'.http
  security : OptionLe SecurityLe v.security v'.security
  candidateConstraint : OptionLe Eq v.candidateConstraint v'.candidateConstraint
  delegation : OptionLe Eq v.delegation v'.delegation
  rawCredentials : OptionLe CredentialsLe v.rawCredentials v'.rawCredentials
  custom : OptionLe Eq v.custom v'.custom
  httpTransport : TransportLe v.httpTransport v'.httpTransport

variable {caps caps' : Finset String}

omit [Contents] in
theorem hasAnySubjectCapability_mono (h : caps ⊆ caps')
    (hany : hasAnySubjectCapability caps = true) : hasAnySubjectCapability caps' = true := by
  obtain ⟨cap, hmem, hcap⟩ := List.any_eq_true.1 hany
  exact List.any_eq_true.2 ⟨cap, hmem, decide_eq_true (h (of_decide_eq_true hcap))⟩

omit [Contents] in
theorem hasReadAccess_mono (policy : SlotPolicy) (h : caps ⊆ caps')
    (hread : hasReadAccess policy caps = true) : hasReadAccess policy caps' = true := by
  simp only [hasReadAccess, Bool.or_eq_true, Bool.and_eq_true] at hread ⊢
  rcases hread with (hopen | hcap) | ⟨hsubject, hany⟩
  · exact .inl (.inl hopen)
  · obtain ⟨cap, hsome, hname⟩ := (Option.any_eq_true _ _).1 hcap
    refine .inl (.inr ((Option.any_eq_true _ _).2 ⟨cap, hsome, ?_⟩))
    exact decide_eq_true (h (of_decide_eq_true hname))
  · exact .inr ⟨hsubject, hasAnySubjectCapability_mono h hany⟩

omit [Contents] in
theorem buildFilteredSecurity_mono (h : caps ⊆ caps') (security : SecurityExtension) :
    SecurityLe (buildFilteredSecurity security caps) (buildFilteredSecurity security caps') where
  unrestricted := ⟨rfl, rfl, rfl, rfl⟩
  labels := gate_subset (hasReadAccess_mono _ h) _
  subject := gate_mono (hasAnySubjectCapability_mono h) (OptionLe.none _) fun _ =>
    OptionLe.map fun _ _ => ⟨⟨rfl, rfl, rfl⟩, gate_subset (@h _) _, gate_subset (@h _) _,
      gate_subset (@h _) _, gate_mapLe (@h _) _⟩
  client := gate_optionLe (hasReadAccess_mono _ h) _
  callerWorkload := gate_optionLe (hasReadAccess_mono _ h) _
  thisWorkload := gate_optionLe (hasReadAccess_mono _ h) _

omit [Contents] in
/-- More header and query grants only add fields. -/
theorem buildFilteredHttp_mono (h : caps ⊆ caps') (http : HttpExtension) :
    OptionLe HttpLe (buildFilteredHttp http caps) (buildFilteredHttp http caps') := by
  by_cases hheaders : canRead .http caps = true
  · rw [buildFilteredHttp_of_readHeaders hheaders,
      buildFilteredHttp_of_readHeaders (hasReadAccess_mono _ h hheaders)]
    rintro view ⟨⟩
    exact ⟨_, rfl, ⟨.rfl, .rfl, .rfl, .rfl, .rfl, .rfl, .rfl, gate_optionLe (@h _) _, .rfl, .rfl⟩⟩
  rw [Bool.not_eq_true] at hheaders
  by_cases hquery : Capability.readQuery.name ∈ caps
  · rw [buildFilteredHttp_of_readQuery hheaders hquery]
    rintro view ⟨⟩
    have hblank : ∀ view : HttpExtension, view.query = http.query →
        HttpLe { HttpExtension.default with query := http.query } view := by
      intro view hsame
      exact ⟨.empty _, .empty _, .empty _, .none _ _, .none _ _, .none _ _, .none _ _,
        hsame ▸ .rfl, .none _ _, .none _ _⟩
    by_cases hheaders' : canRead .http caps' = true
    · rw [buildFilteredHttp_of_readHeaders hheaders']
      exact ⟨_, rfl, hblank _ (if_pos (h hquery))⟩
    · rw [Bool.not_eq_true] at hheaders'
      rw [buildFilteredHttp_of_readQuery hheaders' (h hquery)]
      exact ⟨_, rfl, hblank _ rfl⟩
  · rw [buildFilteredHttp_of_hidden hheaders hquery]
    exact OptionLe.none _ _

theorem filterExtensions_httpTransport_mono (h : caps ⊆ caps') (e : Extensions) :
    TransportLe (filterExtensions e caps).httpTransport (filterExtensions e caps').httpTransport := by
  unfold filterExtensions
  cases e.httpTransport with
  | notInstalled | notPermitted => exact trivial
  | available transport =>
    by_cases hperform : Capability.performHttp.name ∈ caps
    · simp [HttpTransportSlot.isAvailable, hperform, h hperform, TransportLe]
    · by_cases hperform' : Capability.performHttp.name ∈ caps' <;>
        simp [HttpTransportSlot.isAvailable, hperform, hperform', TransportLe]

theorem filterExtensions_mono (h : caps ⊆ caps') (e : Extensions) :
    ViewLe (filterExtensions e caps) (filterExtensions e caps') where
  immutable s := by
    refine gate_optionLe (fun hread => ?_) _
    cases s <;> first | exact hasReadAccess_mono _ h hread | rfl
  http := by
    intro view hview
    obtain ⟨http, hhttp, hbuilt⟩ := Option.bind_eq_some_iff.1 hview
    obtain ⟨view', hview', hle⟩ := buildFilteredHttp_mono h http view hbuilt
    exact ⟨view', Option.bind_eq_some_iff.2 ⟨http, hhttp, hview'⟩, hle⟩
  security := OptionLe.map fun security _ => buildFilteredSecurity_mono h security
  candidateConstraint := .rfl
  delegation := gate_optionLe (hasReadAccess_mono _ h) _
  rawCredentials := by
    have hinbound := hasReadAccess_mono (slotPolicy .rawCredentialsInbound) h
    have hdelegated := hasReadAccess_mono (slotPolicy .rawCredentialsDelegated) h
    refine gate_mono ?_ (OptionLe.none _) fun _ => OptionLe.map fun raw _ => ?_
    · rw [Bool.or_eq_true, Bool.or_eq_true]
      exact Or.imp hinbound hdelegated
    · exact ⟨gate_mapLe hinbound _, gate_mapLe hdelegated _⟩
  custom := .rfl
  httpTransport := filterExtensions_httpTransport_mono h e

/-- A view depends only on what is granted and on whether a transport is installed, and grows with
the capabilities. -/
theorem capability_noninterference (caps caps' : Finset String) :
    (∀ e₁ e₂ : Extensions, AgreeOn caps e₁ e₂ →
      e₁.httpTransport.isAvailable = e₂.httpTransport.isAvailable →
        filterExtensions e₁ caps = filterExtensions e₂ caps) ∧
      (caps ⊆ caps' → ∀ e : Extensions,
        ViewLe (filterExtensions e caps) (filterExtensions e caps')) := by
  constructor
  · intro e₁ e₂ hagree htransport
    have himmutable : (filterExtensions e₁ caps).immutable = (filterExtensions e₂ caps).immutable :=
      funext fun s => gate_congr (hagree.immutable s)
    have hservice : (filterExtensions e₁ caps).httpTransport =
        (filterExtensions e₂ caps).httpTransport := by
      unfold filterExtensions
      rw [htransport, gate_congr hagree.httpTransport]
    exact Extensions.ext himmutable hagree.http_view_eq hagree.security_view_eq
      hagree.candidateConstraint (gate_congr hagree.delegation) hagree.rawCredentials_view_eq
      hagree.custom rfl rfl rfl hservice
  · intro hsub e
    exact filterExtensions_mono hsub e

end Monotonicity

section Cases

local instance viewContents : Contents := Contents.plain

/-- The view tells a withheld transport from a missing one. -/
theorem filterExtensions_reveals_transport :
    let e := { Extensions.default with httpTransport := .available () }
    AgreeOn ∅ e .default ∧ filterExtensions e ∅ ≠ filterExtensions .default ∅ := by
  refine ⟨⟨fun _ _ => rfl, fun _ => .none, .none, rfl, fun _ => rfl, fun _ => .none, rfl, ?_⟩, ?_⟩
  · intro hperform
    simp at hperform
  · intro h
    exact absurd (congrArg Extensions.httpTransport h) nofun

def requestWith (credential : String) : Extensions :=
  { Extensions.default with
    http := some { HttpExtension.default with
      requestHeaders := ((∅ : HashMap String String).insert "Accept" "text/html").insert
        "Authorization" credential
      secretMarkers := Finmap.singleton "authorization" "<redacted>"
      path := some "/billing"
      query := some "id=7" } }

theorem capability_noninterference_credential :
    filterExtensions (requestWith "Bearer a") {"read_headers"} =
        filterExtensions (requestWith "Bearer b") {"read_headers"} ∧
      ViewLe (filterExtensions (requestWith "Bearer a") {"read_headers"})
        (filterExtensions (requestWith "Bearer a") {"read_headers", "read_query"}) := by
  have hheaders : HeadersAgreeUpToSecrets ((requestWith "Bearer a").http.getD .default)
      ((requestWith "Bearer b").http.getD .default) := by
    refine ⟨fun name => ?_, fun name hpublic => ?_, rfl, rfl, ⟨rfl, rfl, rfl, rfl, rfl⟩, rfl⟩
    · by_cases hname : name = "Authorization" <;> simp [requestWith, lookup_insert_eq, hname]
    · have hname : name ≠ "Authorization" := by
        rintro rfl
        exact absurd hpublic (by decide)
      simp [requestWith, lookup_insert_eq, hname]
  have hagree : AgreeOn {"read_headers"} (requestWith "Bearer a") (requestWith "Bearer b") := by
    refine ⟨fun _ _ => rfl, fun _ => .some ⟨fun _ => hheaders, fun _ => rfl⟩, .none, rfl,
      fun _ => rfl, fun _ => .none, rfl, fun _ => rfl⟩
  have hviews := capability_noninterference {"read_headers"} {"read_headers", "read_query"}
  exact ⟨hviews.1 _ _ hagree rfl, hviews.2 (by decide) _⟩

end Cases

end PraxisPolicy
