import PraxisPolicy.RouteValidation
import PraxisPolicy.RouteSpecificity

/-!
# The winning route and the name it goes by

The name is one the route contributes; for a named entity it is the request's own unless the route
selects by a pattern.
-/

namespace PraxisPolicy

open FirstMaximum

theorem routeEntityIdentity_iff {route : RouteEntry} {entityType : String} {names : List String}
    (hone : (declaredSelectors route).length = 1) :
    routeEntityIdentity route = some (entityType, names) ↔
      (entityType = entityHttp ∧ ∃ selector, route.http = some selector ∧
        httpSelectorNames selector = names) ∨
      (entityType ≠ entityHttp ∧ ∃ matcher, route.matcher entityType = some matcher ∧
        matcher.asNames = names) := by
  obtain ⟨tool, resource, prompt, llm, http, routeMeta, groups, authentication, rateLimits⟩ := route
  have hkinds : entityTool ≠ entityHttp ∧ entityResource ≠ entityHttp ∧ entityPrompt ≠ entityHttp ∧
      entityLlm ≠ entityHttp ∧ entityResource ≠ entityTool ∧ entityPrompt ≠ entityTool ∧
      entityPrompt ≠ entityResource ∧ entityLlm ≠ entityTool ∧ entityLlm ≠ entityResource ∧
      entityLlm ≠ entityPrompt := by decide
  cases tool <;> cases resource <;> cases prompt <;> cases llm <;> cases http <;>
    simp [declaredSelectors] at hone <;>
    simp only [routeEntityIdentity, RouteEntry.matcher, Option.map_some, Option.map_none,
      Option.orElse_eq_orElse, Option.orElse_eq_or, Option.or_some, Option.getD_none,
      Option.some.injEq] <;>
    grind

theorem slash_mem_httpSelectorNames {selector : HttpSelector} (h : selector.defect = none)
    {name : String} (hname : name ∈ httpSelectorNames selector) : '/' ∈ name.toList := by
  obtain ⟨path, key, hkey, rfl⟩ : ∃ path key, matchedHttpKey selector path = some key ∧
      key.render = name := by
    unfold httpSelectorNames renderedMethods at hname
    unfold matchedHttpKey
    cases hdeclared : selector.pathPrefix with
    | some declared =>
      rw [hdeclared, List.mem_singleton] at hname
      exact ⟨"", _, rfl, hname.symm⟩
    | none =>
      rw [hdeclared, List.mem_map] at hname
      obtain ⟨declared, hmem, rfl⟩ := hname
      have hfind : matchedExactPath selector declared = some declared := by
        have hsome : (matchedExactPath selector declared).isSome = true := by
          rw [matchedExactPath_isSome]
          simpa using hmem
        obtain ⟨found, hfound⟩ := Option.isSome_iff_exists.1 hsome
        have hsame : declared = found := by simpa using List.find?_some hfound
        rw [hfound, hsame]
      exact ⟨declared, _, by rw [hfind]; rfl, rfl⟩
  exact slash_mem_render (wellFormed_matchedHttpKey h hkey).absolute

section Ranks

/-- Route `i` answers the query and every other route that does is ranked after it. -/
def IsBest (config : PolicyConfig) (query : RouteQuery) (i : ℕ) : Prop :=
  ∃ route, config.routes[i]? = some route ∧ routeMatches route query = true ∧
    ∀ (j : ℕ) (other : RouteEntry), config.routes[j]? = some other →
      routeMatches other query = true → j ≠ i →
      totalScore other query < totalScore route query ∨
        (totalScore other query = totalScore route query ∧ i < j)

def GoesBy (config : PolicyConfig) (query : RouteQuery) (i : ℕ) (name : String) : Prop :=
  ∃ route score, config.routes[i]? = some route ∧ scoreRouteMatch route query = some (score, name)

variable {config : PolicyConfig} {query : RouteQuery} {i : ℕ}

theorem isBest_of_resolveRoute {matched : MatchedRoute}
    (h : resolveRoute config query = some matched) :
    IsBest config query matched.index ∧ GoesBy config query matched.index matched.name := by
  obtain ⟨total, hbest⟩ := resolveRoute_eq_some h
  obtain ⟨hroute, hmatch, htotal⟩ := of_mem_candidates hbest.mem
  refine ⟨⟨matched.route, hroute, hmatch, fun j other hj hother hne => ?_⟩, ?_⟩
  · obtain ⟨name, hmem⟩ := mem_candidates hj hother
    rcases hbest.compare MatchedRoute.index (pairwise_index_candidates config query) hmem with
      hsame | ⟨hscore, -⟩ | ⟨hscore, hindex⟩
    · exact absurd (congrArg (fun c => c.2.index) hsame) hne
    · exact .inl (htotal ▸ hscore)
    · rcases Nat.lt_or_eq_of_le hscore with hlt | heq
      · exact .inl (htotal ▸ hlt)
      · exact .inr ⟨heq.trans htotal, hindex⟩
  · obtain ⟨⟨route, i⟩, hentry, hfound⟩ := List.mem_filterMap.1 hbest.mem
    obtain ⟨-, score, -, hscore, -, hindex, hsame⟩ := scoredRoute_eq_some_iff.1 hfound
    simp only at hindex hsame hscore
    exact ⟨matched.route, score, hroute, hsame ▸ hscore⟩

theorem IsBest.unique {i j : ℕ} (hi : IsBest config query i) (hj : IsBest config query j) :
    i = j := by
  obtain ⟨route, hroute, hmatch, hothers⟩ := hi
  obtain ⟨route', hroute', hmatch', hothers'⟩ := hj
  by_contra hne
  have hfirst := hothers j route' hroute' hmatch' (Ne.symm hne)
  have hsecond := hothers' i route hroute hmatch hne
  omega

theorem IsBest.resolveRoute (h : IsBest config query i) :
    ∃ matched, resolveRoute config query = some matched ∧ matched.index = i := by
  cases hresolved : PraxisPolicy.resolveRoute config query with
  | some matched => exact ⟨matched, rfl, (isBest_of_resolveRoute hresolved).1.unique h⟩
  | none =>
    obtain ⟨route, hroute, hmatch, -⟩ := h
    obtain ⟨name, hmem⟩ := mem_candidates hroute hmatch
    rw [PraxisPolicy.resolveRoute, Option.map_eq_none_iff, firstMaximum_eq_none_iff] at hresolved
    rw [hresolved] at hmem
    cases hmem

theorem GoesBy.unique {name name' : String} (h : GoesBy config query i name)
    (h' : GoesBy config query i name') : name = name' := by
  obtain ⟨route, score, hroute, hscore⟩ := h
  obtain ⟨route', score', hroute', hscore'⟩ := h'
  obtain rfl := Option.some.inj (hroute.symm.trans hroute')
  exact (Prod.mk.inj (Option.some.inj (hscore.symm.trans hscore'))).2

theorem matchedSelectorName_mem {matcher : StringOrList} {entityName name : String}
    (h : matchedSelectorName matcher entityName = some name) : name ∈ matcher.asNames := by
  cases matcher with
  | single pattern =>
    obtain rfl := Option.some.inj h
    exact List.mem_singleton_self _
  | list names => exact List.mem_of_find?_eq_some h

theorem matchedHttpName_mem {selector : HttpSelector} {path name : String}
    (h : matchedHttpName selector path = some name) : name ∈ httpSelectorNames selector := by
  unfold matchedHttpName at h
  unfold httpSelectorNames
  cases hdeclared : selector.pathPrefix with
  | some declared =>
    rw [hdeclared] at h
    obtain rfl := Option.some.inj h
    exact List.mem_singleton_self _
  | none =>
    rw [hdeclared] at h
    obtain ⟨declared, hexact, rfl⟩ := Option.map_eq_some_iff.1 h
    exact List.mem_map_of_mem (List.mem_of_find?_eq_some hexact)

theorem GoesBy.contributes (haccepted : RoutesAccepted config) {name : String}
    (h : GoesBy config query i name) :
    ∃ route names, config.routes[i]? = some route ∧
      routeEntityIdentity route = some (query.entityType, names) ∧ name ∈ names := by
  obtain ⟨route, score, hroute, hscore⟩ := h
  have hone := haccepted.one_selector route (List.mem_of_getElem? hroute)
  unfold scoreRouteMatch at hscore
  simp only [Option.bind_eq_bind, Option.pure_def] at hscore
  split_ifs at hscore with htype
  · obtain ⟨selector, hselector, hscore⟩ := Option.bind_eq_some_iff.1 hscore
    obtain ⟨base, -, hscore⟩ := Option.bind_eq_some_iff.1 hscore
    obtain ⟨found, hfound, hscore⟩ := Option.bind_eq_some_iff.1 hscore
    obtain ⟨rfl, rfl⟩ := Prod.mk.inj (Option.some.inj hscore)
    exact ⟨route, _, hroute, (routeEntityIdentity_iff hone).2 (.inl ⟨htype, selector, hselector, rfl⟩),
      matchedHttpName_mem hfound⟩
  · obtain ⟨matcher, hmatcher, hscore⟩ := Option.bind_eq_some_iff.1 hscore
    obtain ⟨base, -, hscore⟩ := Option.bind_eq_some_iff.1 hscore
    obtain ⟨found, hfound, hscore⟩ := Option.bind_eq_some_iff.1 hscore
    obtain ⟨rfl, rfl⟩ := Prod.mk.inj (Option.some.inj hscore)
    exact ⟨route, _, hroute, (routeEntityIdentity_iff hone).2 (.inr ⟨htype, matcher, hmatcher, rfl⟩),
      matchedSelectorName_mem hfound⟩

theorem scope_of_routeMatches {route : RouteEntry} (h : routeMatches route query = true) :
    route.scope = none ∨ route.scope = query.scope := by
  rw [routeMatches, Bool.and_eq_true, scopeAdmits] at h
  cases hscope : route.scope with
  | none => exact .inl rfl
  | some s =>
    rw [hscope] at h
    have hs : query.scope = some s := by simpa using h.1
    exact .inr hs.symm

end Ranks

section Globs

theorem eq_of_wildMatch {pattern text : List Char} (hliteral : ∀ c ∈ pattern, c ≠ '*' ∧ c ≠ '?')
    (h : wildMatch pattern text = true) : pattern = text := by
  induction pattern generalizing text with
  | nil =>
    simp only [wildMatch, List.isEmpty_iff] at h
    exact h.symm
  | cons p pattern ih =>
    obtain ⟨⟨hstar, hquestion⟩, hrest⟩ := List.forall_mem_cons.1 hliteral
    cases text with
    | nil => simp [wildMatch, hstar] at h
    | cons c text =>
      simp only [wildMatch, if_neg hstar, Bool.and_eq_true, Bool.or_eq_true, beq_iff_eq, hquestion,
        false_or] at h
      rw [h.1, ih hrest h.2]

variable {config : PolicyConfig} {query : RouteQuery}

theorem GoesBy.glob (htype : query.entityType ≠ entityHttp) {i : ℕ} {name : String}
    (h : GoesBy config query i name) (hname : name ≠ query.name) :
    declaresGlobNamedRoutes config = true := by
  obtain ⟨route, score, hroute, hscore⟩ := h
  unfold scoreRouteMatch at hscore
  rw [if_neg htype] at hscore
  simp only [Option.bind_eq_bind, Option.pure_def] at hscore
  obtain ⟨matcher, hmatcher, hscore⟩ := Option.bind_eq_some_iff.1 hscore
  obtain ⟨base, hbase, hscore⟩ := Option.bind_eq_some_iff.1 hscore
  obtain ⟨found, hfound, hscore⟩ := Option.bind_eq_some_iff.1 hscore
  obtain ⟨-, rfl⟩ := Prod.mk.inj (Option.some.inj hscore)
  rw [scoreEntityMatch_eq] at hbase
  split_ifs at hbase with hmatch
  have hglob : isGlobSelector matcher = true := by
    cases matcher with
    | list names =>
      have hsame : found = query.name := by simpa using List.find?_some hfound
      exact absurd hsame hname
    | single pattern =>
      obtain rfl := Option.some.inj hfound
      by_contra hliteral
      refine hname (String.toList_inj.1 (eq_of_wildMatch (fun c hc => ?_) hmatch))
      simp only [isGlobSelector, List.any_eq_true, Bool.or_eq_true, beq_iff_eq, not_exists,
        not_and, not_or] at hliteral
      exact hliteral c hc
  rw [declaresGlobNamedRoutes, List.any_eq_true]
  refine ⟨route, List.mem_of_getElem? hroute, List.any_eq_true.2 ⟨some matcher, ?_, hglob⟩⟩
  unfold RouteEntry.matcher at hmatcher
  rw [← hmatcher]
  split_ifs <;> simp_all

end Globs

end PraxisPolicy
