import PraxisPolicy.RouteAnnotations

/-!
# The annotation of a request and the route of a request

`resolve_route` scores every route, and the annotation table is asked by key.  They agree exactly
where the route found on file first outranks the others.
-/

namespace PraxisPolicy

open HashMaps JsonValues FirstMaximum

section Agreement

variable {document : AnnotatedDocument} {query : RouteQuery} {hook : String}
  {matched : MatchedRoute} {entry : HookEntry}

theorem firstOnFile_of_resolveRoute (hresolved : resolveRoute document.config query = some matched)
    (hentry : lastWrite hook (document.handlers matched.index matched.name) = some entry) :
    ∃ i other, FirstOnFile document query.entityType matched.name query.scope hook i other := by
  obtain ⟨⟨route, hroute, hmatch, -⟩, hname⟩ := isBest_of_resolveRoute hresolved
  rcases acceptRoutes_ok document.accepted with ⟨-, haccepted⟩ | ⟨-, hnone⟩
  · obtain ⟨route', names, hroute', hids, hmem⟩ := hname.contributes haccepted
    obtain rfl := Option.some.inj (hroute.symm.trans hroute')
    have hfile : OnFile document ⟨query.entityType, matched.name, route.scope, hook⟩ matched.index
        entry := ⟨route, names, hroute, hids, hmem, rfl, hentry⟩
    by_cases hscoped : ∃ s j other, query.scope = some s ∧
        OnFile document ⟨query.entityType, matched.name, some s, hook⟩ j other
    · obtain ⟨s, j, other, hs, hother⟩ := hscoped
      exact ⟨j, other, .inl ⟨s, hs, hother⟩⟩
    · push Not at hscoped
      rcases scope_of_routeMatches hmatch with hunscoped | hscope
      · exact ⟨matched.index, entry, .inr ⟨hscoped, hunscoped ▸ hfile⟩⟩
      · cases hs : query.scope with
        | none => exact ⟨matched.index, entry, .inr ⟨by simp, by rw [hscope, hs] at hfile; exact hfile⟩⟩
        | some s =>
          rw [hscope, hs] at hfile
          exact absurd hfile (hscoped s matched.index entry hs)
  · rw [hnone] at hroute
    cases hroute

theorem FirstOnFile.lastWrite {entityType name : String} {scope : Option String} {i : ℕ}
    (h : FirstOnFile document entityType name scope hook i entry) :
    HashMaps.lastWrite hook (document.handlers i name) = some entry := by
  rcases h with ⟨s, -, -, -, -, -, -, -, hentry⟩ | ⟨-, -, -, -, -, -, -, hentry⟩ <;> exact hentry

/-- The winner's annotation is found unless another route has one under its name. -/
theorem annotationFor_winner_iff (hresolved : resolveRoute document.config query = some matched)
    (hname : IsRouteName query.entityType matched.name) :
    annotationFor document.snapshot query.entityType matched.name query.scope hook =
        lastWrite hook (document.handlers matched.index matched.name) ↔
      ∀ j entry, FirstOnFile document query.entityType matched.name query.scope hook j entry →
        j = matched.index := by
  constructor
  · intro hagree j entry hfile
    rw [(annotationFor_iff hname).2 ⟨j, hfile⟩] at hagree
    exact document.handlers_distinct hfile.lastWrite hagree.symm
  · intro hown
    cases hfound : annotationFor document.snapshot query.entityType matched.name query.scope hook with
    | some entry =>
      obtain ⟨j, hfile⟩ := (annotationFor_iff hname).1 hfound
      obtain rfl := hown j entry hfile
      exact hfile.lastWrite.symm
    | none =>
      cases hentry : lastWrite hook (document.handlers matched.index matched.name) with
      | none => rfl
      | some entry =>
        obtain ⟨j, other, hfile⟩ := firstOnFile_of_resolveRoute hresolved hentry
        rw [(annotationFor_iff hname).2 ⟨j, hfile⟩] at hfound
        cases hfound

end Agreement

section Requests

def annotationOfRequest (snapshot : RuntimeSnapshot) (request : RouteRequest) : Option HookEntry :=
  match resolveHttp snapshot request with
  | .error _ => none
  | .ok httpMatched =>
    match request.entityType, resolvedName request httpMatched with
    | some entityType, some name =>
      annotatedEntry snapshot entityType name request.scope request.hookName
    | _, _ => none

/-- That of the global policy when an HTTP request has no route. -/
def annotationOfWinner (document : AnnotatedDocument) (request : RouteRequest) :
    Option HookEntry :=
  match (routeQuery request).bind (resolveRoute document.config) with
  | some matched => lastWrite request.hookName (document.handlers matched.index matched.name)
  | none => if request.isHttp then lastWrite request.hookName document.catchAll else none

/-- What is on file under the request's own name is of the best route; where nothing is, or for
HTTP, what is on file under the name the best route goes by is its own. -/
def Undisputed (document : AnnotatedDocument) (query : RouteQuery) (hook : String) : Prop :=
  (query.entityType ≠ entityHttp → ∀ i entry,
    FirstOnFile document query.entityType query.name query.scope hook i entry →
      IsBest document.config query i) ∧
  ((query.entityType = entityHttp ∨ ∀ i entry,
      ¬ FirstOnFile document query.entityType query.name query.scope hook i entry) →
    ∀ i name, IsBest document.config query i → GoesBy document.config query i name →
      ∀ j entry, FirstOnFile document query.entityType name query.scope hook j entry → j = i)

variable {document : AnnotatedDocument} {request : RouteRequest} {query : RouteQuery}
  {name hook : String} {scope : Option String} {httpMatched : Option MatchedRoute}

theorem annotatedEntry_eq (snapshot : RuntimeSnapshot) (entityType name : String)
    (scope : Option String) (hook : String) :
    annotatedEntry snapshot entityType name scope hook =
      (annotationFor snapshot entityType name scope hook).or
        (if snapshot.declaresGlobNamedRoutes then
          snapshot.routingConfig.bind fun config =>
            (resolveRoute config (.named entityType name scope)).bind fun matched =>
              if matched.name = name then none
              else annotationFor snapshot entityType matched.name scope hook
        else none) := by
  unfold annotatedEntry
  by_cases hempty : snapshot.routeAnnotations = ∅
  · have hnone : ∀ name, annotationFor snapshot entityType name scope hook = none := by
      intro name
      cases scope <;> simp [annotationFor, hempty]
    simp [hempty, hnone]
  · rw [if_neg hempty]
    rfl

theorem declaresGlobNamedRoutes_snapshot :
    document.snapshot.declaresGlobNamedRoutes = declaresGlobNamedRoutes document.config := by
  have hkept : ∀ (installed : List (AnnotationKey × HookEntry)) (snapshot : RuntimeSnapshot),
      (annotateAll snapshot installed).declaresGlobNamedRoutes =
        snapshot.declaresGlobNamedRoutes := by
    intro installed
    induction installed with
    | nil => exact fun _ => rfl
    | cons a installed ih => exact fun snapshot => ih (snapshot.annotateRoute a.1 a.2)
  rw [AnnotatedDocument.snapshot, hkept]
  rfl

theorem routingConfig_snapshot :
    document.snapshot.routingConfig =
      if document.config.isPolicy then some document.config else none := by
  rw [RuntimeSnapshot.routingConfig, AnnotatedDocument.snapshot, annotateAll_policyConfig]
  cases h : document.config.isPolicy <;> simp [snapshotFromConfig, Option.filter, h]

theorem resolveRoute_nil {config : PolicyConfig} (h : config.routes = []) (query : RouteQuery) :
    resolveRoute config query = none := by
  rw [resolveRoute, h]
  rfl

theorem resolveRoute_named_http (config : PolicyConfig) (name : String) (scope : Option String) :
    resolveRoute config (.named entityHttp name scope) = none := by
  rw [resolveRoute, Option.map_eq_none_iff, firstMaximum_eq_none_iff, List.filterMap_eq_nil_iff]
  intro entry _
  have hscored := scoredRoute_fst (.named entityHttp name scope) entry
  rw [if_neg] at hscored
  · simpa using hscored
  · rw [routeMatches, RouteQuery.named]
    simp [httpSelectorMatches, isAbsolute]

theorem forall_isBest_iff {matched : MatchedRoute} {P : ℕ → String → Prop}
    (h : resolveRoute document.config query = some matched) :
    (∀ i name, IsBest document.config query i → GoesBy document.config query i name → P i name) ↔
      P matched.index matched.name := by
  obtain ⟨hbest, hname⟩ := isBest_of_resolveRoute h
  refine ⟨fun hall => hall _ _ hbest hname, fun hwinner i name hi hgoes => ?_⟩
  obtain rfl := hi.unique hbest
  obtain rfl := hgoes.unique hname
  exact hwinner

theorem not_isBest_of_none (h : resolveRoute document.config query = none) (i : ℕ) :
    ¬ IsBest document.config query i := by
  intro hbest
  obtain ⟨matched, hresolved, -⟩ := hbest.resolveRoute
  rw [h] at hresolved
  cases hresolved

theorem httpMatched_eq_selected (hhttp : request.isHttp = true)
    (h : resolveHttp document.snapshot request = .ok httpMatched) :
    httpMatched = (routeQuery request).bind (resolveRoute document.config) := by
  rw [routeQuery, if_pos hhttp, Option.bind_map]
  rcases acceptRoutes_ok document.accepted with ⟨hpolicy, -⟩ | ⟨hhooks, hnone⟩
  · exact httpMatched_eq hhttp (by rw [routingConfig_snapshot, if_pos hpolicy]) h
  · have hrouting : document.snapshot.routingConfig = none := by
      rw [routingConfig_snapshot, hhooks, if_neg Bool.false_ne_true]
    have hselected : (matchPath request).bind (resolveRoute document.config ∘ fun path =>
        .http path (request.http.bind HttpExtension.method) request.scope) = none := by
      cases matchPath request <;> simp [resolveRoute_nil hnone]
    rw [hselected]
    simp only [resolveHttp, hhttp, hrouting, Bool.not_true, Bool.false_eq_true, if_false,
      Option.any_none, Option.bind_eq_bind, Option.bind_none] at h
    split at h <;> exact (Except.ok.inj h).symm

theorem http_agrees_iff (hhttp : request.isHttp = true)
    (h : resolveHttp document.snapshot request = .ok httpMatched) :
    annotationOfRequest document.snapshot request = annotationOfWinner document request ↔
      ∀ query, routeQuery request = some query → Undisputed document query request.hookName := by
  have htype : request.entityType = some entityHttp := by
    simpa [RouteRequest.isHttp] using hhttp
  have hquery : ∀ {query}, routeQuery request = some query →
      query.entityType = entityHttp ∧ query.scope = request.scope ∧
      ∃ path method, query = .http path method request.scope := by
    intro query hq
    rw [routeQuery, if_pos hhttp] at hq
    obtain ⟨path, -, rfl⟩ := Option.map_eq_some_iff.1 hq
    exact ⟨rfl, rfl, path, _, rfl⟩
  have hfound : annotationOfRequest document.snapshot request =
      annotationFor document.snapshot entityHttp (httpMatched.elim entityNameGlobal MatchedRoute.name)
        request.scope request.hookName := by
    simp only [annotationOfRequest, h, htype, resolvedName, hhttp, if_true, annotatedEntry_eq,
      resolveRoute_named_http, Option.bind_none]
    cases document.snapshot.routingConfig <;> simp
  have hselected := httpMatched_eq_selected hhttp h
  rw [hfound, annotationOfWinner, ← hselected]
  cases hmatched : httpMatched with
  | none =>
    rw [hmatched] at hselected
    simp only [Option.elim_none, hhttp, if_true, annotationFor_global, true_iff]
    intro query hq
    rw [hq, Option.bind_some] at hselected
    refine ⟨fun hnamed => absurd (hquery hq).1 hnamed, fun _ i name hbest => ?_⟩
    exact absurd hbest (not_isBest_of_none hselected.symm i)
  | some matched =>
    rw [hmatched] at hselected
    obtain ⟨query, hq, hresolved⟩ := Option.bind_eq_some_iff.1 hselected.symm
    obtain ⟨hqtype, hqscope, path, method, rfl⟩ := hquery hq
    have hname : IsRouteName entityHttp matched.name := by
      rcases acceptRoutes_ok document.accepted with ⟨-, haccepted⟩ | ⟨-, hnone⟩
      · exact fun hglobal => resolveRoute_http_ne_global haccepted.selectors_valid hresolved hglobal.2
      · rw [resolveRoute_nil hnone] at hresolved
        cases hresolved
    rw [Option.elim_some]
    refine Iff.trans (annotationFor_winner_iff hresolved hname) ?_
    rw [hq]
    constructor
    · rintro hown query' hq'
      obtain rfl := Option.some.inj hq'
      exact ⟨fun hnamed => absurd rfl hnamed, fun _ => (forall_isBest_iff hresolved).2 hown⟩
    · intro hall
      exact (forall_isBest_iff hresolved).1 ((hall _ rfl).2 (.inl rfl))

theorem GoesBy.own_name (htype : query.entityType ≠ entityHttp) {i : ℕ} {entry : HookEntry}
    (h : GoesBy document.config query i name)
    (hfile : OnFile document ⟨query.entityType, query.name, scope, hook⟩ i entry) :
    name = query.name := by
  obtain ⟨route, score, hroute, hscore⟩ := h
  obtain ⟨route', names, hroute', hids, hmem, -, -⟩ := hfile
  obtain rfl := Option.some.inj (hroute.symm.trans hroute')
  rcases acceptRoutes_ok document.accepted with ⟨-, haccepted⟩ | ⟨-, hnone⟩
  · rcases (routeEntityIdentity_iff (haccepted.one_selector route
      (List.mem_of_getElem? hroute))).1 hids with ⟨hhttp, -⟩ | ⟨-, matcher, hmatcher, rfl⟩
    · exact absurd hhttp htype
    unfold scoreRouteMatch at hscore
    rw [if_neg htype, hmatcher] at hscore
    simp only [Option.bind_eq_bind, Option.pure_def, Option.bind_some] at hscore
    obtain ⟨base, -, hscore⟩ := Option.bind_eq_some_iff.1 hscore
    obtain ⟨found, hfound, hscore⟩ := Option.bind_eq_some_iff.1 hscore
    obtain ⟨-, rfl⟩ := Prod.mk.inj (Option.some.inj hscore)
    cases matcher with
    | list names => simpa using List.find?_some hfound
    | single pattern =>
      obtain rfl := Option.some.inj hfound
      exact (List.mem_singleton.1 hmem).symm
  · rw [hnone] at hroute
    cases hroute

theorem annotatedEntry_agrees_iff {entityType : String} (htype : entityType ≠ entityHttp) :
    annotatedEntry document.snapshot entityType name scope hook =
        ((resolveRoute document.config (.named entityType name scope)).bind fun matched =>
          lastWrite hook (document.handlers matched.index matched.name)) ↔
      Undisputed document (.named entityType name scope) hook := by
  have hnames : ∀ name, IsRouteName entityType name := fun _ h => htype h.1
  rw [annotatedEntry_eq]
  cases hown : annotationFor document.snapshot entityType name scope hook with
  | some entry =>
    obtain ⟨j, hfile⟩ := (annotationFor_iff (hnames name)).1 hown
    rw [Option.some_or]
    constructor
    · intro hagree
      obtain ⟨matched, hresolved, hentry⟩ := Option.bind_eq_some_iff.1 hagree.symm
      refine ⟨fun _ i other hother => ?_, fun hnone => ?_⟩
      · have hsame : some entry = some other :=
          hown.symm.trans ((annotationFor_iff (hnames name)).2 ⟨i, hother⟩)
        have hindex : i = matched.index :=
          document.handlers_distinct hother.lastWrite ((Option.some.inj hsame) ▸ hentry)
        exact hindex ▸ (isBest_of_resolveRoute hresolved).1
      · exact (hnone.elim htype fun h => h j entry hfile).elim
    · intro hundisputed
      obtain ⟨matched, hresolved, rfl⟩ := (hundisputed.1 htype j entry hfile).resolveRoute
      obtain ⟨scope', honfile⟩ : ∃ scope',
          OnFile document ⟨entityType, name, scope', hook⟩ matched.index entry := by
        rcases hfile with ⟨s, -, hfile⟩ | ⟨-, hfile⟩
        · exact ⟨some s, hfile⟩
        · exact ⟨none, hfile⟩
      have hname : matched.name = name :=
        (isBest_of_resolveRoute hresolved).2.own_name htype honfile
      rw [hresolved, Option.bind_some, hname, hfile.lastWrite]
  | none =>
    have hnofile : ∀ i entry, ¬ FirstOnFile document entityType name scope hook i entry := by
      intro i entry hfile
      rw [(annotationFor_iff (hnames name)).2 ⟨i, hfile⟩] at hown
      cases hown
    have hundisputed : Undisputed document (.named entityType name scope) hook ↔
        ∀ i found, IsBest document.config (.named entityType name scope) i →
          GoesBy document.config (.named entityType name scope) i found →
          ∀ j entry, FirstOnFile document entityType found scope hook j entry → j = i :=
      ⟨fun h => h.2 (.inr hnofile), fun h => ⟨fun _ i entry hfile => absurd hfile (hnofile i entry),
        fun _ => h⟩⟩
    rw [hundisputed, Option.none_or, declaresGlobNamedRoutes_snapshot, routingConfig_snapshot]
    cases hresolved : resolveRoute document.config (.named entityType name scope) with
    | none =>
      have hleft : ∀ flag policy : Bool, (if flag then
          (if policy then some document.config else none).bind fun config =>
            (resolveRoute config (.named entityType name scope)).bind fun matched =>
              if matched.name = name then none
              else annotationFor document.snapshot entityType matched.name scope hook
          else none) = none := by
        intro flag policy
        cases flag <;> cases policy <;> simp [hresolved]
      rw [hleft]
      simp only [Option.bind_none, true_iff]
      exact fun i found hbest => absurd hbest (not_isBest_of_none hresolved i)
    | some matched =>
      have hpolicy : document.config.isPolicy = true := by
        rcases acceptRoutes_ok document.accepted with ⟨hpolicy, -⟩ | ⟨-, hnone⟩
        · exact hpolicy
        · rw [resolveRoute_nil hnone] at hresolved
          cases hresolved
      rw [if_pos hpolicy, Option.bind_some, Option.bind_some, hresolved, Option.bind_some,
        forall_isBest_iff hresolved]
      by_cases hname : matched.name = name
      · -- the winner goes by the request's name and has nothing on file there
        have hbare : lastWrite hook (document.handlers matched.index matched.name) = none := by
          rw [Option.eq_none_iff_forall_ne_some]
          intro entry hentry
          obtain ⟨i, other, hfile⟩ := firstOnFile_of_resolveRoute hresolved hentry
          rw [hname] at hfile
          exact hnofile i other hfile
        rw [hbare, if_pos hname, ite_self]
        simp only [true_iff]
        rw [hname]
        exact fun j entry hfile => absurd hfile (hnofile j entry)
      · have hglob := (isBest_of_resolveRoute hresolved).2.glob htype hname
        rw [if_pos hglob, if_neg hname]
        exact annotationFor_winner_iff hresolved (hnames matched.name)

/-- For every readable request to an accepted document, the annotation dispatched is that of the
selected route exactly when no route gets in its way. -/
theorem annotation_agrees_iff (document : AnnotatedDocument) (request : RouteRequest)
    (hread : ∀ cause, resolveHttp document.snapshot request ≠ .error cause) :
    annotationOfRequest document.snapshot request = annotationOfWinner document request ↔
      ∀ query, routeQuery request = some query → Undisputed document query request.hookName := by
  by_cases hhttp : request.isHttp = true
  · cases hresolved : resolveHttp document.snapshot request with
    | error cause => exact absurd hresolved (hread cause)
    | ok httpMatched => exact http_agrees_iff hhttp hresolved
  have hplain : request.isHttp = false := by simpa using hhttp
  have hresolved : resolveHttp document.snapshot request = .ok none := by
    simp [resolveHttp, hplain]
  simp only [annotationOfRequest, annotationOfWinner, routeQuery, hresolved, resolvedName, hplain,
    Bool.false_eq_true, if_false]
  cases htype : request.entityType with
  | none => simp
  | some entityType =>
    have hnamed : entityType ≠ entityHttp := mt (isHttp_iff htype).2 hhttp
    cases hname : request.hostMeta.bind MetaExtension.entityName with
    | none => simp
    | some name =>
      simp only [Option.bind_eq_bind, Option.bind_some, Option.pure_def, Option.some.injEq,
        forall_eq']
      rw [← annotatedEntry_agrees_iff hnamed]
      cases resolveRoute document.config (.named entityType name request.scope) <;> simp

end Requests

/-- With a handler numbered like the route. -/
def numberedHandlers (hooks : ℕ → List String) (i : ℕ) (_name : String) : List (String × HookEntry) :=
  (hooks i).map fun hook => (hook, ⟨i, "policy", i⟩)

theorem numberedHandlers_distinct (hooks : ℕ → List String) {i j : ℕ} {name name' hook : String}
    {entry : HookEntry} (hi : lastWrite hook (numberedHandlers hooks i name) = some entry)
    (hj : lastWrite hook (numberedHandlers hooks j name') = some entry) : i = j := by
  have hnumber : ∀ {i name}, lastWrite hook (numberedHandlers hooks i name) = some entry →
      entry.pluginId = i := by
    intro i name h
    obtain ⟨found, -, hfound⟩ := List.mem_map.1 (lastWrite_mem h)
    rw [← (Prod.mk.inj hfound).2]
  exact (hnumber hi).symm.trans (hnumber hj)

def numberedDocument (config : PolicyConfig) (accepted : acceptRoutes config = .ok ())
    (hooks : ℕ → List String) : AnnotatedDocument where
  config := config
  hookIndex := ∅
  rateLimitOverrides := ∅
  handlers := numberedHandlers hooks
  catchAll := []
  accepted := accepted
  handlers_distinct := numberedHandlers_distinct hooks

def inScope (scope : String) (route : RouteEntry) : RouteEntry :=
  { route with routeMeta := some ⟨[], some scope⟩ }

def getPayIn (scope : Option String) : RouteRequest :=
  ⟨payHook, some ⟨some entityTool, some "get_pay", scope⟩, none⟩

/-- A list in the request's scope, below an exact name without one. -/
def listBelowName : AnnotatedDocument :=
  numberedDocument (ofRoutes [
    inScope "hr" { RouteEntry.default with tool := some (.list ["get_pay", "get_tax"]) },
    toolRoute "get_pay"]) (by decide) fun _ => [payHook]

def questionBeforeName : AnnotatedDocument :=
  numberedDocument (ofRoutes [toolRoute "get_pa?", toolRoute "get_pay"]) (by decide)
    fun _ => [payHook]

def unscopedStandsIn : AnnotatedDocument :=
  numberedDocument (ofRoutes [inScope "hr" (toolRoute "get_pay"), toolRoute "get_pay"]) (by decide)
    fun i => if i = 0 then [] else [payHook]

/-- Each request is dispatched to the annotation of another route. -/
theorem annotation_of_another_route :
    (annotationOfRequest listBelowName.snapshot (getPayIn (some "hr"))).map HookEntry.pluginId =
      some 0 ∧
    (resolveRoute listBelowName.config (.named entityTool "get_pay" (some "hr"))).map
      MatchedRoute.index = some 1 ∧
    (annotationOfRequest questionBeforeName.snapshot (getPayIn none)).map HookEntry.pluginId =
      some 1 ∧
    (resolveRoute questionBeforeName.config (.named entityTool "get_pay" none)).map
      MatchedRoute.index = some 0 ∧
    (annotationOfRequest unscopedStandsIn.snapshot (getPayIn (some "hr"))).map HookEntry.pluginId =
      some 1 ∧
    (resolveRoute unscopedStandsIn.config (.named entityTool "get_pay" (some "hr"))).map
      MatchedRoute.index = some 0 := by
  decide +kernel

def globAndName : AnnotatedDocument :=
  numberedDocument (ofRoutes [inScope "hr" (toolRoute "get_*"), toolRoute "get_pay"]) (by decide)
    fun _ => [payHook]

theorem annotation_agrees_iff_globAndName :
    (∀ query, routeQuery (getPayIn (some "hr")) = some query →
      Undisputed globAndName query payHook) ∧
    (annotationOfRequest globAndName.snapshot (getPayIn (some "hr"))).map HookEntry.pluginId =
      some 1 := by
  refine ⟨(annotation_agrees_iff globAndName (getPayIn (some "hr")) ?_).1 ?_, ?_⟩
  · intro cause h
    cases h
  · decide +kernel
  · decide +kernel

end PraxisPolicy
