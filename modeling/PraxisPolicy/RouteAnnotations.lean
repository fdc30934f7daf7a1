import PraxisPolicy.RouteWinners
import PraxisPolicy.PolicyReload

/-!
# The annotation table of a document

A visitor installs a handler for each hook of a route under every name it contributes, in its scope.
-/

namespace PraxisPolicy

open HashMaps JsonValues FirstMaximum

/-- Per route and name, a handler for each hook. -/
def routeInstalls (config : PolicyConfig) (handlers : ℕ → String → List (String × HookEntry)) :
    List (AnnotationKey × HookEntry) :=
  config.routes.zipIdx.flatMap fun (route, i) =>
    match routeEntityIdentity route with
    | none => []
    | some (entityType, names) => names.flatMap fun name =>
        (handlers i name).map fun (hook, entry) => (⟨entityType, name, route.scope, hook⟩, entry)

/-- For HTTP requests that match no route. -/
def globalInstalls (catchAll : List (String × HookEntry)) : List (AnnotationKey × HookEntry) :=
  catchAll.map fun (hook, entry) => (⟨entityHttp, entityNameGlobal, none, hook⟩, entry)

/-- Handlers are built one by one, so no two routes share one. -/
structure AnnotatedDocument where
  config : PolicyConfig
  hookIndex : HashMap String (List HookEntry)
  rateLimitOverrides : HashMap RateLimitStepSite RateLimitOverride
  handlers : ℕ → String → List (String × HookEntry)
  catchAll : List (String × HookEntry)
  accepted : acceptRoutes config = .ok ()
  handlers_distinct : ∀ {i j : ℕ} {name name' hook : String} {entry : HookEntry},
    lastWrite hook (handlers i name) = some entry →
    lastWrite hook (handlers j name') = some entry → i = j

def AnnotatedDocument.snapshot (document : AnnotatedDocument) : RuntimeSnapshot :=
  annotateAll (snapshotFromConfig document.hookIndex document.config document.rateLimitOverrides)
    (globalInstalls document.catchAll ++ routeInstalls document.config document.handlers)

section Lookups

variable (document : AnnotatedDocument)

def OnFile (key : AnnotationKey) (i : ℕ) (entry : HookEntry) : Prop :=
  ∃ route names, document.config.routes[i]? = some route ∧
    routeEntityIdentity route = some (key.entityType, names) ∧ key.entityName ∈ names ∧
    route.scope = key.scope ∧ lastWrite key.hookName (document.handlers i key.entityName) = some entry

/-- In the scope, or unscoped with none in the scope. -/
def FirstOnFile (entityType name : String) (scope : Option String) (hook : String) (i : ℕ)
    (entry : HookEntry) : Prop :=
  (∃ s, scope = some s ∧ OnFile document ⟨entityType, name, some s, hook⟩ i entry) ∨
    (∀ s j other, scope = some s → ¬ OnFile document ⟨entityType, name, some s, hook⟩ j other) ∧
      OnFile document ⟨entityType, name, none, hook⟩ i entry

variable {document} {key : AnnotationKey} {i : ℕ} {entry : HookEntry} {other : HookEntry}
  {scope : Option String}

theorem acceptRoutes_ok {config : PolicyConfig} (h : acceptRoutes config = .ok ()) :
    config.isPolicy = true ∧ RoutesAccepted config ∨
      config.isPolicy = false ∧ config.routes = [] := by
  unfold acceptRoutes at h
  cases hvalid : validateRoutes config with
  | error cause => rw [hvalid] at h; cases h
  | ok u =>
    by_cases hpolicy : config.isPolicy = true
    · exact .inl ⟨hpolicy, routesAccepted_of_validateRoutes hpolicy hvalid⟩
    · refine .inr ⟨by simpa using hpolicy, ?_⟩
      rw [hvalid] at h
      simp only [bind, Except.bind, hpolicy, Bool.false_eq_true, if_false] at h
      by_contra hroutes
      have hsome : config.routes.isEmpty = false := by simpa using hroutes
      rw [rejectTypedPolicyScopes, hsome] at h
      simp at h

theorem OnFile.unique {j : ℕ} (hi : OnFile document key i entry)
    (hj : OnFile document key j other) : i = j := by
  obtain ⟨route, names, hroute, hids, hname, hscope, -⟩ := hi
  obtain ⟨route', names', hroute', hids', hname', hscope', -⟩ := hj
  rcases acceptRoutes_ok document.accepted with ⟨-, haccepted⟩ | ⟨-, hnone⟩
  · exact haccepted.names_unique hroute hroute' hids hids' (hscope.trans hscope'.symm) hname hname'
  · rw [hnone] at hroute
    cases hroute

theorem OnFile.entry_unique (h : OnFile document key i entry)
    (h' : OnFile document key i other) : entry = other := by
  obtain ⟨-, -, -, -, -, -, hentry⟩ := h
  obtain ⟨-, -, -, -, -, -, hother⟩ := h'
  exact Option.some.inj (hentry.symm.trans hother)

theorem routeAnnotations_annotateAll (snapshot : RuntimeSnapshot)
    (installed : List (AnnotationKey × HookEntry)) :
    (annotateAll snapshot installed).routeAnnotations =
      writeAll snapshot.routeAnnotations installed := by
  induction installed generalizing snapshot with
  | nil => rfl
  | cons a installed ih => exact ih (snapshot.annotateRoute a.1 a.2)

theorem lastWrite_filed (key : AnnotationKey) (entityType name : String) (scope : Option String)
    (handlers : List (String × HookEntry)) :
    lastWrite key (handlers.map fun (hook, entry) =>
      ((⟨entityType, name, scope, hook⟩ : AnnotationKey), entry)) =
      if key.entityType = entityType ∧ key.entityName = name ∧ key.scope = scope then
        lastWrite key.hookName handlers
      else none := by
  obtain ⟨keyType, keyName, keyScope, keyHook⟩ := key
  induction handlers with
  | nil => simp
  | cons handler handlers ih =>
    obtain ⟨hook, entry⟩ := handler
    rw [List.map_cons, lastWrite_cons, lastWrite_cons, ih]
    by_cases hkey : keyType = entityType ∧ keyName = name ∧ keyScope = scope
    · obtain ⟨rfl, rfl, rfl⟩ := hkey
      simp
    · have hother : ¬ (entityType = keyType ∧ name = keyName ∧ scope = keyScope ∧ hook = keyHook) :=
        fun h => hkey ⟨h.1.symm, h.2.1.symm, h.2.2.1.symm⟩
      simp [hkey, hother]

theorem lastWrite_routeInstalls_iff :
    lastWrite key (routeInstalls document.config document.handlers) = some entry ↔
      ∃ i, OnFile document key i entry := by
  have hfound : ∀ {entry}, lastWrite key (routeInstalls document.config document.handlers) =
      some entry → ∃ i, OnFile document key i entry := by
    intro entry h
    obtain ⟨⟨route, i⟩, hroute, hblock⟩ := lastWrite_flatMap_mem h
    dsimp only at hblock
    split at hblock
    · cases hblock
    rename_i entityType names hids
    obtain ⟨name, hname, hfiled⟩ := lastWrite_flatMap_mem hblock
    rw [lastWrite_filed] at hfiled
    split_ifs at hfiled with hkey
    obtain ⟨rfl, rfl, hscope⟩ := hkey
    exact ⟨i, route, names, List.mem_zipIdx_iff_getElem?.1 hroute, hids, hname, hscope.symm, hfiled⟩
  refine ⟨hfound, ?_⟩
  rintro ⟨i, hfile⟩
  cases hlast : lastWrite key (routeInstalls document.config document.handlers) with
  | some other =>
    obtain ⟨j, hother⟩ := hfound hlast
    obtain rfl := hfile.unique hother
    rw [hfile.entry_unique hother]
  | none =>
    obtain ⟨route, names, hroute, hids, hname, hscope, hentry⟩ := hfile
    have hblock := lastWrite_flatMap_none.1 hlast (route, i) (List.mem_zipIdx_iff_getElem?.2 hroute)
    dsimp only at hblock
    rw [hids] at hblock
    have hfiled := lastWrite_flatMap_none.1 hblock key.entityName hname
    rw [lastWrite_filed, if_pos ⟨rfl, rfl, hscope.symm⟩, hentry] at hfiled
    cases hfiled

theorem OnFile.not_global {hook : String} :
    ¬ OnFile document ⟨entityHttp, entityNameGlobal, scope, hook⟩ i entry := by
  rintro ⟨route, names, hroute, hids, hname, -, -⟩
  rcases acceptRoutes_ok document.accepted with ⟨-, haccepted⟩ | ⟨-, hnone⟩
  · have hmem := List.mem_of_getElem? hroute
    rcases (routeEntityIdentity_iff (haccepted.one_selector route hmem)).1 hids with
      ⟨-, selector, hselector, rfl⟩ | ⟨hnamed, -⟩
    · have hslash : '/' ∈ entityNameGlobal.toList := slash_mem_httpSelectorNames
        (haccepted.selectors_valid route hmem selector hselector) hname
      exact absurd hslash (by decide)
    · exact hnamed rfl
  · rw [hnone] at hroute
    cases hroute

theorem lookup_snapshot (key : AnnotationKey) :
    document.snapshot.routeAnnotations.lookup key =
      (lastWrite key (routeInstalls document.config document.handlers)).or
        (lastWrite key (globalInstalls document.catchAll)) := by
  rw [AnnotatedDocument.snapshot, routeAnnotations_annotateAll, lookup_writeAll, lastWrite_append]
  simp [snapshotFromConfig]

def IsRouteName (entityType name : String) : Prop :=
  ¬ (entityType = entityHttp ∧ name = entityNameGlobal)

theorem annotationFor_iff {entityType name hook : String} (hname : IsRouteName entityType name) :
    annotationFor document.snapshot entityType name scope hook = some entry ↔
      ∃ i, FirstOnFile document entityType name scope hook i entry := by
  have hlookup : ∀ scope entry, document.snapshot.routeAnnotations.lookup
      ⟨entityType, name, scope, hook⟩ = some entry ↔
        ∃ i, OnFile document ⟨entityType, name, scope, hook⟩ i entry := by
    intro scope entry
    have hglobal : lastWrite ⟨entityType, name, scope, hook⟩ (globalInstalls document.catchAll) =
        none := by
      rw [globalInstalls, lastWrite_filed, if_neg fun h => hname ⟨h.1, h.2.1⟩]
    rw [lookup_snapshot, hglobal, Option.or_none, lastWrite_routeInstalls_iff]
  unfold annotationFor FirstOnFile
  rw [Option.or_eq_some_iff, Option.bind_eq_some_iff, Option.bind_eq_none_iff]
  simp only [hlookup, Option.eq_none_iff_forall_ne_some, ne_eq, not_exists]
  constructor
  · rintro (⟨s, hs, i, hfile⟩ | ⟨hnone, i, hfile⟩)
    · exact ⟨i, .inl ⟨s, hs, hfile⟩⟩
    · exact ⟨i, .inr ⟨fun s j other hs => hnone s hs other j, hfile⟩⟩
  · rintro ⟨i, ⟨s, hs, hfile⟩ | ⟨hnone, hfile⟩⟩
    · exact .inl ⟨s, hs, i, hfile⟩
    · exact .inr ⟨fun s hs other j => hnone s j other hs, i, hfile⟩

theorem annotationFor_global (scope : Option String) (hook : String) :
    annotationFor document.snapshot entityHttp entityNameGlobal scope hook =
      lastWrite hook document.catchAll := by
  have hroutes : ∀ scope', lastWrite ⟨entityHttp, entityNameGlobal, scope', hook⟩
      (routeInstalls document.config document.handlers) = none := by
    intro scope'
    rw [Option.eq_none_iff_forall_ne_some]
    intro entry hentry
    obtain ⟨i, hfile⟩ := lastWrite_routeInstalls_iff.1 hentry
    exact OnFile.not_global hfile
  unfold annotationFor
  simp only [lookup_snapshot, hroutes, Option.none_or, globalInstalls, lastWrite_filed, true_and]
  cases scope <;> simp

end Lookups

end PraxisPolicy
