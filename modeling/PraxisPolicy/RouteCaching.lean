import PraxisPolicy.RouteDispatch
import PraxisPolicy.RouteNames

/-!
# What a cache key determines

For a generic HTTP request the key holds the name of the route, not the path or method; requests
that resolve to one name and scope are matched by the same routes with the same scores.
-/

namespace PraxisPolicy

open HashMaps JsonValues TextScanning FirstMaximum

section Routes

def SelectorsValid (config : PolicyConfig) : Prop :=
  ∀ route ∈ config.routes, ∀ selector ∈ route.http, selector.defect = none

instance (config : PolicyConfig) : Decidable (SelectorsValid config) :=
  inferInstanceAs (Decidable (∀ route ∈ config.routes, ∀ selector ∈ route.http, _))

variable {matched : MatchedRoute} {config : PolicyConfig} {method scope : Option String}
  {query : RouteQuery}

theorem scoredRoute_eq_some_iff {entry : RouteEntry × ℕ} {total : ℕ} :
    scoredRoute query entry = some (total, matched) ↔
      ∃ bonus score, scopeBonus entry.1.scope query.scope = some bonus ∧
        scoreRouteMatch entry.1 query = some (score, matched.name) ∧
        saturatingAdd score bonus = total ∧ matched.index = entry.2 ∧ matched.route = entry.1 := by
  obtain ⟨index, route, name⟩ := matched
  simp only [scoredRoute, Option.bind_eq_bind, Option.bind_eq_some_iff, Option.pure_def,
    Option.some.injEq, Prod.mk.injEq, MatchedRoute.mk.injEq, Prod.exists]
  constructor
  · rintro ⟨bonus, hbonus, score, name', hscore, rfl, rfl, rfl, rfl⟩
    exact ⟨bonus, score, hbonus, hscore, rfl, rfl, rfl⟩
  · rintro ⟨bonus, score, hbonus, hscore, rfl, rfl, rfl⟩
    exact ⟨bonus, hbonus, score, name, hscore, rfl, rfl, rfl, rfl⟩

theorem pairwise_index_candidates (config : PolicyConfig) (query : RouteQuery) :
    (config.routes.zipIdx.filterMap (scoredRoute query)).Pairwise
      fun x y => x.2.index < y.2.index := by
  have hindex : config.routes.zipIdx.Pairwise fun x y => x.2 < y.2 := by
    rw [← List.pairwise_map (f := Prod.snd), List.zipIdx_map_snd]
    exact List.pairwise_lt_range'
  refine hindex.filterMap _ ?_
  rintro x y hlt ⟨s, m⟩ hm ⟨t, n⟩ hn
  obtain ⟨-, -, -, -, -, hx, -⟩ := scoredRoute_eq_some_iff.1 hm
  obtain ⟨-, -, -, -, -, hy, -⟩ := scoredRoute_eq_some_iff.1 hn
  rw [hx, hy]
  exact hlt

theorem resolveRoute_eq_some (h : resolveRoute config query = some matched) :
    ∃ total, FirstMaximal (total, matched) (config.routes.zipIdx.filterMap (scoredRoute query)) := by
  obtain ⟨⟨total, matched'⟩, hbest, rfl⟩ := Option.map_eq_some_iff.1 h
  exact ⟨total, firstMaximal_of_firstMaximum hbest⟩

theorem scoreRouteMatch_http_iff {route : RouteEntry} {path : String} {score : ℕ} {name : String} :
    scoreRouteMatch route (.http path method scope) = some (score, name) ↔
      ∃ selector, route.http = some selector ∧ scoreHttpMatch selector path method = some score ∧
        matchedHttpName selector path = some name := by
  simp only [scoreRouteMatch, RouteQuery.http, if_true, Option.bind_eq_bind,
    Option.bind_eq_some_iff, Option.pure_def, Option.some.injEq, Prod.mk.injEq]
  constructor
  · rintro ⟨selector, hselector, score', hscore, name', hname, rfl, rfl⟩
    exact ⟨selector, hselector, hscore, hname⟩
  · rintro ⟨selector, hselector, hscore, hname⟩
    exact ⟨selector, hselector, score, hscore, name, hname, rfl, rfl⟩

theorem mem_candidates_of_same_name (hvalid : SelectorsValid config) {p p' : String}
    {m m' : Option String} {t t' : ℕ} {r r' : MatchedRoute}
    (hr : (t, r) ∈ config.routes.zipIdx.filterMap (scoredRoute (.http p m scope)))
    (hr' : (t', r') ∈ config.routes.zipIdx.filterMap (scoredRoute (.http p' m' scope)))
    (hname : r.name = r'.name) :
    (t, r) ∈ config.routes.zipIdx.filterMap (scoredRoute (.http p' m' scope)) := by
  have hmem : ∀ {entry : RouteEntry × ℕ}, entry ∈ config.routes.zipIdx →
      entry.1 ∈ config.routes := by
    intro entry hentry
    exact List.fst_mem_of_mem_zipIdx hentry
  obtain ⟨entry, hentry, hscored⟩ := List.mem_filterMap.1 hr
  obtain ⟨entry', hentry', hscored'⟩ := List.mem_filterMap.1 hr'
  obtain ⟨bonus, score, hbonus, hscore, htotal, hplace⟩ := scoredRoute_eq_some_iff.1 hscored
  obtain ⟨-, score', -, hscore', -⟩ := scoredRoute_eq_some_iff.1 hscored'
  obtain ⟨selector, hselector, hmatch, hrendered⟩ := scoreRouteMatch_http_iff.1 hscore
  obtain ⟨selector', hselector', hmatch', hrendered'⟩ := scoreRouteMatch_http_iff.1 hscore'
  have hboth := scoreHttpMatch_of_same_name (hvalid _ (hmem hentry) _ hselector)
    (hvalid _ (hmem hentry') _ hselector') hmatch hrendered hmatch' (hname ▸ hrendered')
  refine List.mem_filterMap.2 ⟨entry, hentry, scoredRoute_eq_some_iff.2 ?_⟩
  exact ⟨bonus, score, hbonus,
    scoreRouteMatch_http_iff.2 ⟨selector, hselector, hboth⟩, htotal, hplace⟩

theorem resolveRoute_http_ne_global (hvalid : SelectorsValid config) {path : String}
    (h : resolveRoute config (.http path method scope) = some matched) :
    matched.name ≠ entityNameGlobal := by
  obtain ⟨total, hbest⟩ := resolveRoute_eq_some h
  obtain ⟨entry, hentry, hscored⟩ := List.mem_filterMap.1 hbest.mem
  obtain ⟨-, score, -, hscore, -⟩ := scoredRoute_eq_some_iff.1 hscored
  obtain ⟨selector, hselector, -, hname⟩ := scoreRouteMatch_http_iff.1 hscore
  rw [matchedHttpName_eq] at hname
  obtain ⟨key, hkey, hrender⟩ := Option.map_eq_some_iff.1 hname
  have hdefect := hvalid _ (List.fst_mem_of_mem_zipIdx hentry) _ hselector
  have hslash := slash_mem_render (wellFormed_matchedHttpKey hdefect hkey).absolute
  intro hglobal
  rw [hrender, hglobal] at hslash
  exact absurd hslash (by decide)

end Routes

section Keys

variable {snapshot : RuntimeSnapshot} {request : RouteRequest} {key : RouteCacheKey}
  {steps : List ResolvedStep}

/-- What the requests of a cache key have in common, and what their list is. -/
structure CachedUnder (snapshot : RuntimeSnapshot) (request : RouteRequest) (key : RouteCacheKey)
    (httpMatched : Option MatchedRoute) (config : PolicyConfig) (steps : List ResolvedStep) :
    Prop where
  hookName : request.hookName = key.hookName
  entityType : request.entityType = some key.entityType
  scope : request.scope = key.scope
  busy : snapshot.hasNothingToDispatch key.hookName = false
  matched : resolveHttp snapshot request = .ok httpMatched
  resolvedName : resolvedName request httpMatched = some key.resolvedName
  unannotated :
    annotatedEntry snapshot key.entityType key.resolvedName key.scope key.hookName = none
  routed : snapshot.routingConfig = some config
  list : structuralResolution snapshot config key.hookName key.entityType key.resolvedName
    key.scope httpMatched = .cached key steps

variable {config : PolicyConfig} {request' : RouteRequest} {steps' : List ResolvedStep}

theorem resolveEntries_eq_cached_iff [EngineHost] :
    resolveEntries snapshot request = .cached key steps ↔
      ∃ httpMatched config, CachedUnder snapshot request key httpMatched config steps := by
  constructor
  · intro h
    unfold resolveEntries at h
    split at h
    · cases h
    rename_i hbusy
    split at h
    · cases h
    rename_i httpMatched hmatched
    split at h
    · rename_i entityType name hentity hname
      split at h
      · cases h
      rename_i hannotated
      split at h
      · cases h
      rename_i config hconfig
      obtain rfl : key = ⟨entityType, name, request.hookName, request.scope⟩ := by
        unfold structuralResolution at h
        dsimp only at h
        split at h <;> simp_all
      exact ⟨httpMatched, config, rfl, hentity, rfl, by simpa using hbusy, hmatched, hname,
        hannotated, hconfig, h⟩
    · split at h
      · cases h
      · split at h <;> cases h
  · rintro ⟨httpMatched, config, hcached⟩
    unfold resolveEntries
    rw [hcached.hookName, hcached.busy, if_neg Bool.false_ne_true, hcached.matched]
    dsimp only
    rw [hcached.entityType, hcached.resolvedName]
    dsimp only
    rw [hcached.scope, hcached.unannotated, hcached.routed]
    exact hcached.list

theorem isHttp_iff {entityType : String} (h : request.entityType = some entityType) :
    request.isHttp = true ↔ entityType = entityHttp := by
  simp [RouteRequest.isHttp, h]

theorem resolveEntries_of_named_key [EngineHost] {snapshot' : RuntimeSnapshot}
    (hnamed : key.entityType ≠ entityHttp) (h : resolveEntries snapshot request = .cached key steps)
    (h' : resolveEntries snapshot' request' = .cached key steps') :
    resolveEntries snapshot request' = .cached key steps := by
  obtain ⟨httpMatched, config, hc⟩ := resolveEntries_eq_cached_iff.1 h
  obtain ⟨httpMatched', config', hc'⟩ := resolveEntries_eq_cached_iff.1 h'
  have hplain : request.isHttp = false := by
    simpa using mt (isHttp_iff hc.entityType).1 hnamed
  have hplain' : request'.isHttp = false := by
    simpa using mt (isHttp_iff hc'.entityType).1 hnamed
  have hnone : httpMatched = none := by
    simpa [resolveHttp, hplain, eq_comm] using hc.matched
  subst hnone
  refine resolveEntries_eq_cached_iff.2 ⟨none, config, hc'.hookName, hc'.entityType, hc'.scope,
    hc.busy, ?_, ?_, hc.unannotated, hc.routed, hc.list⟩
  · simp [resolveHttp, hplain']
  · simpa [resolvedName, hplain'] using hc'.resolvedName

theorem httpMatched_eq {config : PolicyConfig} {httpMatched : Option MatchedRoute}
    (hhttp : request.isHttp = true) (hconfig : snapshot.routingConfig = some config)
    (h : resolveHttp snapshot request = .ok httpMatched) :
    httpMatched = (matchPath request).bind fun path =>
      resolveRoute config (.http path (request.http.bind HttpExtension.method) request.scope) := by
  unfold resolveHttp at h
  simp only [hhttp, hconfig, Bool.not_true, Bool.false_eq_true, if_false, Option.bind_eq_bind,
    Option.bind_some] at h
  split at h
  · split at h
    · cases h
    · exact (Except.ok.inj h).symm
  · exact (Except.ok.inj h).symm

theorem CachedUnder.matched_unique {m m' : Option MatchedRoute} {config' : PolicyConfig}
    (hvalid : ∀ config ∈ snapshot.routingConfig, SelectorsValid config)
    (hc : CachedUnder snapshot request key m config steps)
    (hc' : CachedUnder snapshot request' key m' config' steps') : m = m' := by
  obtain rfl : config = config' := Option.some.inj (hc.routed.symm.trans hc'.routed)
  by_cases hhttp : key.entityType = entityHttp
  · have hhttp₁ := (isHttp_iff hc.entityType).2 hhttp
    have hhttp₂ := (isHttp_iff hc'.entityType).2 hhttp
    have hm := httpMatched_eq hhttp₁ hc.routed hc.matched
    have hm' := httpMatched_eq hhttp₂ hc'.routed hc'.matched
    have hname := hc.resolvedName
    have hname' := hc'.resolvedName
    simp only [PraxisPolicy.resolvedName, hhttp₁, hhttp₂, if_true, Option.some.injEq] at hname hname'
    rw [hc.scope] at hm
    rw [hc'.scope] at hm'
    have hselectors := hvalid config hc.routed
    have hsame := hname.trans hname'.symm
    cases m with
    | none =>
      cases m' with
      | none => rfl
      | some r' =>
        obtain ⟨p', -, hr'⟩ := Option.bind_eq_some_iff.1 hm'.symm
        exact absurd hsame.symm (resolveRoute_http_ne_global hselectors hr')
    | some r =>
      obtain ⟨p, -, hr⟩ := Option.bind_eq_some_iff.1 hm.symm
      cases m' with
      | none => exact absurd hsame (resolveRoute_http_ne_global hselectors hr)
      | some r' =>
        obtain ⟨p', -, hr'⟩ := Option.bind_eq_some_iff.1 hm'.symm
        obtain ⟨t, hbest⟩ := resolveRoute_eq_some hr
        obtain ⟨t', hbest'⟩ := resolveRoute_eq_some hr'
        -- both routes are candidates of both requests
        have hfirst := firstMaximal_unique MatchedRoute.index
          (pairwise_index_candidates config _) (pairwise_index_candidates config _) hbest hbest'
          (mem_candidates_of_same_name hselectors hbest'.mem hbest.mem hsame.symm)
          (mem_candidates_of_same_name hselectors hbest.mem hbest'.mem hsame)
        exact congrArg (fun best => some best.2) hfirst
  · have hplain₁ : request.isHttp = false := by simpa using mt (isHttp_iff hc.entityType).1 hhttp
    have hplain₂ : request'.isHttp = false := by simpa using mt (isHttp_iff hc'.entityType).1 hhttp
    have hm := hc.matched
    have hm' := hc'.matched
    simp only [resolveHttp, hplain₁, hplain₂, Bool.not_false, if_true, Except.ok.injEq] at hm hm'
    rw [← hm, ← hm']

theorem steps_unique [EngineHost]
    (hvalid : ∀ config ∈ snapshot.routingConfig, SelectorsValid config)
    (h : resolveEntries snapshot request = .cached key steps)
    (h' : resolveEntries snapshot request' = .cached key steps') : steps = steps' := by
  obtain ⟨m, config, hc⟩ := resolveEntries_eq_cached_iff.1 h
  obtain ⟨m', config', hc'⟩ := resolveEntries_eq_cached_iff.1 h'
  obtain rfl := hc.matched_unique hvalid hc'
  obtain rfl : config = config' := Option.some.inj (hc.routed.symm.trans hc'.routed)
  exact (Resolution.cached.inj (hc.list.symm.trans hc'.list)).2

theorem CachedUnder.selectedRoute_eq {m : Option MatchedRoute}
    (hc : CachedUnder snapshot request key m config steps) :
    selectedRoute snapshot request =
      if key.entityType = entityHttp then m
      else resolveRoute config (.named key.entityType key.resolvedName key.scope) := by
  rw [selectedRoute, hc.routed, Option.bind_some, routeQuery]
  by_cases hhttp : key.entityType = entityHttp
  · have hrequest := (isHttp_iff hc.entityType).2 hhttp
    rw [if_pos hhttp, if_pos hrequest, Option.bind_map, httpMatched_eq hrequest hc.routed hc.matched]
    rfl
  · have hplain : request.isHttp = false := by simpa using mt (isHttp_iff hc.entityType).1 hhttp
    have hname := hc.resolvedName
    simp only [PraxisPolicy.resolvedName, hplain, Bool.false_eq_true, if_false] at hname
    simp only [hplain, Bool.false_eq_true, if_false, hc.entityType, hname, hc.scope, if_neg hhttp,
      Option.bind_eq_bind, Option.bind_some, Option.pure_def]

end Keys

end PraxisPolicy
