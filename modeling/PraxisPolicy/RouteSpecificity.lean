import PraxisPolicy.RouteCaching

/-!
# The most specific route wins

Routes are scored by adding up bounded bonuses.  The sums compare as the intended lexicographic
order does.
-/

namespace PraxisPolicy

open FirstMaximum TextScanning

abbrev Specificity := ℕ ×ₗ ℕ ×ₗ ℕ ×ₗ ℕ

def Specificity.of (kind length scope narrowing : ℕ) : Specificity :=
  toLex (kind, toLex (length, toLex (scope, narrowing)))

/-- An exact name before a list, before a pattern with wildcards, before a lone `*`. -/
def nameRank : StringOrList → ℕ
  | .single pattern =>
    if pattern = "*" then 0
    else if pattern.toList.any (fun c => c == '*' || c == '?') then 1
    else 3
  | .list _ => 2

/-- Without its trailing slash; `//` counts as the root. -/
def prefixSegments (declared : String) : ℕ :=
  let trimmed := withoutTrailingSlash declared
  if trimmed = "" ∨ trimmed = "/" then 0 else trimmed.toList.count '/'

/-- Fewer methods before more; fifty and more rank alike. -/
def narrowingRank (method : Option StringOrList) : ℕ :=
  (normalizedMethods method).elim 0 fun methods => 50 - min (methods.length - 1) 49

def scopeRank (route : RouteEntry) : ℕ := if route.scope.isSome then 1 else 0

def routeRank (route : RouteEntry) (query : RouteQuery) : Specificity :=
  if query.entityType = entityHttp then
    route.http.elim (.of 0 0 0 0) fun selector => match selector.pathPrefix with
      | none => .of 1 0 (scopeRank route) (narrowingRank selector.method)
      | some declared =>
        .of 0 (prefixSegments declared) (scopeRank route) (narrowingRank selector.method)
  else (route.matcher query.entityType).elim (.of 0 0 0 0) fun matcher =>
    .of (nameRank matcher) 0 (scopeRank route) 0

def scopeAdmits (routeScope requestScope : Option String) : Bool :=
  routeScope.all fun scope => requestScope == some scope

def httpSelectorMatches (selector : HttpSelector) (path : String) (method : Option String) : Bool :=
  isAbsolute path && httpMethodMatches selector.method method &&
    match selector.pathPrefix with
    | some declared => pathPrefixMatches path declared
    | none => selector.exactPaths.contains path

def routeMatches (route : RouteEntry) (query : RouteQuery) : Bool :=
  scopeAdmits route.scope query.scope &&
    if query.entityType = entityHttp then
      route.http.any fun selector => httpSelectorMatches selector query.path query.method
    else (route.matcher query.entityType).any fun matcher => matcher.matches query.name

section Matching

variable {route : RouteEntry} {query : RouteQuery} {selector : HttpSelector}
  {matcher : StringOrList}

theorem scopeBonus_eq (routeScope requestScope : Option String) :
    scopeBonus routeScope requestScope =
      if scopeAdmits routeScope requestScope then
        some (if routeScope.isSome then specificityScopeMatch else 0)
      else none := by
  cases routeScope with
  | none => rfl
  | some declared =>
    cases requestScope with
    | none => rfl
    | some requested =>
      by_cases h : declared = requested
      · simp [scopeBonus, scopeAdmits, h]
      · simp [scopeBonus, scopeAdmits, h, Ne.symm h]

theorem matchedExactPath_isSome (selector : HttpSelector) (path : String) :
    (matchedExactPath selector path).isSome = selector.exactPaths.contains path := by
  rw [matchedExactPath, Bool.eq_iff_iff, List.find?_isSome]
  simp

theorem scoreHttpMatch_eq (selector : HttpSelector) (path : String) (method : Option String) :
    scoreHttpMatch selector path method =
      if httpSelectorMatches selector path method then
        some (saturatingAdd (selector.pathPrefix.elim specificityExactPath fun declared =>
          saturatingMul (pathPrefixSpecificity declared) specificityPathPrefixStep)
          (methodNarrowingBonus selector.method))
      else none := by
  unfold scoreHttpMatch httpSelectorMatches
  by_cases hreq : (isAbsolute path && httpMethodMatches selector.method method) = true
  · rw [if_pos hreq, hreq, Bool.true_and]
    cases selector.pathPrefix with
    | some declared => by_cases h : pathPrefixMatches path declared = true <;> simp [h]
    | none =>
      rw [← matchedExactPath_isSome]
      cases matchedExactPath selector path <;> simp
  · simp [hreq]

end Matching

section Prefixes

variable {path d₁ d₂ : String} {declared : String}

theorem trimmed_boundary (h : pathPrefixMatches path declared = true) :
    (withoutTrailingSlash declared).toList ++ ['/'] <+: path.toList ++ ['/'] := by
  unfold pathPrefixMatches at h
  simp only [Bool.and_eq_true, Bool.or_eq_true, beq_iff_eq, List.isPrefixOf_iff_prefix] at h
  obtain ⟨habsolute, (hroot | hwhole) | hboundary⟩ := h
  · rw [hroot]
    obtain ⟨rest, hrest⟩ := List.head?_eq_some_iff.1 (beq_iff_eq.1 habsolute)
    rw [hrest]
    exact ⟨rest ++ ['/'], rfl⟩
  · rw [← hwhole]
  · exact hboundary.trans (List.prefix_append _ _)

theorem utf8ByteSize_lt_of_boundary {s t : String} (h : s.toList ++ ['/'] <+: t.toList) :
    s.utf8ByteSize < t.utf8ByteSize := by
  obtain ⟨rest, hrest⟩ := h
  have ht : t = s ++ String.ofList ('/' :: rest) := by
    rw [← String.toList_inj, String.toList_append, String.toList_ofList, ← hrest]
    simp
  have hpos : 0 < (String.ofList ('/' :: rest)).utf8ByteSize := by
    rw [Nat.pos_iff_ne_zero, Ne, String.utf8ByteSize_eq_zero_iff]
    simp
  rw [ht, String.utf8ByteSize_append]
  omega

theorem deep_of_boundary {trimmed : String} (habsolute : isAbsolute path = true)
    (hboundary : trimmed.toList ++ ['/'] <+: path.toList ++ ['/']) (hempty : trimmed ≠ "")
    (hslash : trimmed ≠ "/") : 2 ≤ trimmed.utf8ByteSize ∧ 0 < trimmed.toList.count '/' := by
  obtain ⟨rest, hrest⟩ := List.head?_eq_some_iff.1 (beq_iff_eq.1 habsolute)
  obtain ⟨c, tail, htrimmed⟩ : ∃ c tail, trimmed.toList = c :: tail :=
    List.exists_cons_of_ne_nil (by simpa using hempty)
  have hc : c = '/' := by
    rw [htrimmed, hrest] at hboundary
    exact (List.cons_prefix_cons.1 hboundary).1
  subst hc
  have htail : trimmed = "/" ++ String.ofList tail := by
    rw [← String.toList_inj, String.toList_append]
    simp [htrimmed]
  have hnonempty : 0 < (String.ofList tail).utf8ByteSize := by
    rw [Nat.pos_iff_ne_zero, Ne, String.utf8ByteSize_eq_zero_iff]
    intro hnil
    exact hslash (by rw [htail, hnil]; rfl)
  refine ⟨?_, by simp [htrimmed]⟩
  have hone : "/".utf8ByteSize = 1 := by decide
  rw [htail, String.utf8ByteSize_append]
  omega

/-- The root, in either spelling, or a segment of its own. -/
inductive PrefixShape (declared : String) : Prop where
  | root (bytes : pathPrefixSpecificity declared = 1) (segments : prefixSegments declared = 0)
  | deep (bytes : pathPrefixSpecificity declared = (withoutTrailingSlash declared).utf8ByteSize)
      (segments : prefixSegments declared = (withoutTrailingSlash declared).toList.count '/')
      (two_le : 2 ≤ (withoutTrailingSlash declared).utf8ByteSize)
      (pos : 0 < (withoutTrailingSlash declared).toList.count '/')

theorem prefixShape (h : pathPrefixMatches path declared = true) :
    PrefixShape declared := by
  have habsolute : isAbsolute path = true := (Bool.and_eq_true_iff.1 h).1
  have hbytes : pathPrefixSpecificity declared = if withoutTrailingSlash declared = "" then 1
      else (withoutTrailingSlash declared).utf8ByteSize := rfl
  have hsegments : prefixSegments declared = if withoutTrailingSlash declared = "" ∨
      withoutTrailingSlash declared = "/" then 0
      else (withoutTrailingSlash declared).toList.count '/' := rfl
  by_cases hempty : withoutTrailingSlash declared = ""
  · exact .root (by simp [hbytes, hempty]) (by simp [hsegments, hempty])
  by_cases hslash : withoutTrailingSlash declared = "/"
  · exact .root (by rw [hbytes, hslash]; decide) (by simp [hsegments, hslash])
  rw [if_neg hempty] at hbytes
  rw [if_neg (by simp [hempty, hslash])] at hsegments
  obtain ⟨htwo, hpos⟩ := deep_of_boundary habsolute (trimmed_boundary h) hempty hslash
  exact .deep hbytes hsegments htwo hpos

/-- Among prefixes of one path, more bytes are more segments. -/
theorem pathPrefixSpecificity_lt_iff (h₁ : pathPrefixMatches path d₁ = true)
    (h₂ : pathPrefixMatches path d₂ = true) :
    pathPrefixSpecificity d₁ < pathPrefixSpecificity d₂ ↔
      prefixSegments d₁ < prefixSegments d₂ := by
  have hcloser : ∀ {s t : String}, s.toList ++ ['/'] <+: path.toList ++ ['/'] →
      t.toList ++ ['/'] <+: path.toList ++ ['/'] → s.toList.length < t.toList.length →
      s.utf8ByteSize < t.utf8ByteSize ∧ s.toList.count '/' < t.toList.count '/' := by
    intro s t hs ht hlt
    have hinside : s.toList ++ ['/'] <+: t.toList :=
      List.prefix_of_prefix_length_le hs ((List.prefix_append _ _).trans ht) (by simpa using hlt)
    have hcount := hinside.sublist.count_le '/'
    rw [List.count_append, List.count_singleton_self] at hcount
    exact ⟨utf8ByteSize_lt_of_boundary hinside, hcount⟩
  have hb₁ := trimmed_boundary h₁
  have hb₂ := trimmed_boundary h₂
  rcases prefixShape h₁ with ⟨hbytes₁, hsegments₁⟩ | ⟨hbytes₁, hsegments₁, htwo₁, hpos₁⟩ <;>
    rcases prefixShape h₂ with ⟨hbytes₂, hsegments₂⟩ | ⟨hbytes₂, hsegments₂, htwo₂, hpos₂⟩ <;>
    rw [hbytes₁, hbytes₂, hsegments₁, hsegments₂]
  · omega
  · omega
  · omega
  rcases lt_trichotomy (withoutTrailingSlash d₁).toList.length
    (withoutTrailingSlash d₂).toList.length with hlt | heq | hgt
  · obtain ⟨hbytes, hcount⟩ := hcloser hb₁ hb₂ hlt
    omega
  · have hsame := (List.prefix_of_prefix_length_le ((List.prefix_append _ _).trans hb₁)
      ((List.prefix_append _ _).trans hb₂) heq.le).eq_of_length heq
    rw [hsame, String.toList_inj.1 hsame]
    omega
  · obtain ⟨hbytes, hcount⟩ := hcloser hb₂ hb₁ hgt
    omega

end Prefixes

section Scores

variable {route : RouteEntry} {query : RouteQuery}

def nameScore : StringOrList → ℕ
  | .single pattern =>
    if pattern = "*" then specificityWildcard
    else if pattern.toList.contains '*' then specificityGlob
    else specificityExactName
  | .list _ => specificityNameList

def baseScore (route : RouteEntry) (query : RouteQuery) : ℕ :=
  if query.entityType = entityHttp then
    route.http.elim 0 fun selector =>
      saturatingAdd (selector.pathPrefix.elim specificityExactPath fun declared =>
        saturatingMul (pathPrefixSpecificity declared) specificityPathPrefixStep)
        (methodNarrowingBonus selector.method)
  else (route.matcher query.entityType).elim 0 nameScore

def totalScore (route : RouteEntry) (query : RouteQuery) : ℕ :=
  saturatingAdd (baseScore route query) (if route.scope.isSome then specificityScopeMatch else 0)

theorem matchedHttpName_isSome {selector : HttpSelector} {path : String} {method : Option String}
    (h : httpSelectorMatches selector path method = true) :
    ∃ name, matchedHttpName selector path = some name := by
  unfold httpSelectorMatches at h
  unfold matchedHttpName
  cases hdeclared : selector.pathPrefix with
  | some declared => exact ⟨_, rfl⟩
  | none =>
    rw [hdeclared, Bool.and_eq_true, ← matchedExactPath_isSome] at h
    obtain ⟨declared, hexact⟩ := Option.isSome_iff_exists.1 h.2
    exact ⟨_, by rw [hexact]; rfl⟩

theorem matchedSelectorName_isSome {matcher : StringOrList} {name : String}
    (h : matcher.matches name = true) : ∃ found, matchedSelectorName matcher name = some found := by
  cases matcher with
  | single pattern => exact ⟨pattern, rfl⟩
  | list names =>
    refine Option.isSome_iff_exists.1 ?_
    rw [matchedSelectorName, List.find?_isSome]
    simpa [StringOrList.matches] using h

theorem scoreEntityMatch_eq (matcher : StringOrList) (name : String) :
    scoreEntityMatch matcher name =
      if matcher.matches name then some (nameScore matcher) else none := by
  unfold scoreEntityMatch
  congr 1

theorem scoreRouteMatch_fst (route : RouteEntry) (query : RouteQuery) :
    (scoreRouteMatch route query).map Prod.fst =
      if (if query.entityType = entityHttp then
          route.http.any fun selector => httpSelectorMatches selector query.path query.method
        else (route.matcher query.entityType).any fun matcher => matcher.matches query.name)
      then some (baseScore route query) else none := by
  unfold scoreRouteMatch baseScore
  by_cases htype : query.entityType = entityHttp
  · simp only [if_pos htype, Option.bind_eq_bind]
    cases route.http with
    | none => rfl
    | some selector =>
      rw [Option.bind_some, scoreHttpMatch_eq]
      by_cases h : httpSelectorMatches selector query.path query.method = true
      · obtain ⟨name, hname⟩ := matchedHttpName_isSome h
        simp [h, hname]
      · simp [h]
  · simp only [if_neg htype, Option.bind_eq_bind]
    cases route.matcher query.entityType with
    | none => rfl
    | some matcher =>
      rw [Option.bind_some, scoreEntityMatch_eq]
      by_cases h : matcher.matches query.name = true
      · obtain ⟨name, hname⟩ := matchedSelectorName_isSome h
        simp [h, hname]
      · simp [h]

theorem scoredRoute_fst (query : RouteQuery) (entry : RouteEntry × ℕ) :
    (scoredRoute query entry).map Prod.fst =
      if routeMatches entry.1 query then some (totalScore entry.1 query) else none := by
  have hscore := scoreRouteMatch_fst entry.1 query
  unfold scoredRoute routeMatches
  rw [scopeBonus_eq]
  by_cases hscope : scopeAdmits entry.1.scope query.scope = true
  · rw [if_pos hscope, hscope, Bool.true_and]
    split_ifs at hscore ⊢ with htype hmatch hmatch <;>
      cases hfound : scoreRouteMatch entry.1 query <;>
      simp_all [totalScore]
  · simp [hscope]

end Scores

section Encoding

variable {r₁ r₂ route : RouteEntry} {query : RouteQuery}

theorem Specificity.of_le_iff {k l s n k' l' s' n' : ℕ} :
    Specificity.of k l s n ≤ .of k' l' s' n' ↔
      k < k' ∨ k = k' ∧ (l < l' ∨ l = l' ∧ (s < s' ∨ s = s' ∧ n ≤ n')) := by
  simp only [Specificity.of, Prod.Lex.toLex_le_toLex]

def questionOnly : StringOrList → Bool
  | .single pattern => pattern.toList.contains '?' && !pattern.toList.contains '*'
  | .list _ => false

def longestRankedPrefix : ℕ := specificityExactPath / specificityPathPrefixStep

/-- No prefix of petabytes and no `?` without `*`. -/
def ScoresAsRanked (route : RouteEntry) (query : RouteQuery) : Prop :=
  if query.entityType = entityHttp then
    ∀ selector ∈ route.http, ∀ declared ∈ selector.pathPrefix,
      pathPrefixSpecificity declared ≤ longestRankedPrefix
  else ∀ matcher ∈ route.matcher query.entityType, questionOnly matcher = false

theorem methodNarrowingBonus_eq (method : Option StringOrList) :
    methodNarrowingBonus method = narrowingRank method := by
  unfold methodNarrowingBonus narrowingRank
  cases normalizedMethods method with
  | none => rfl
  | some methods =>
    simp only [narrowingBonus, specificityMethodNarrowed, Option.elim_some]
    omega

theorem narrowingRank_le (method : Option StringOrList) : narrowingRank method ≤ 50 := by
  unfold narrowingRank
  cases normalizedMethods method <;> simp

theorem scopeRank_le (route : RouteEntry) : scopeRank route ≤ 1 := by
  unfold scopeRank
  split_ifs <;> omega

theorem scopeBonus_eq_scopeRank (route : RouteEntry) :
    (if route.scope.isSome then specificityScopeMatch else 0) = 100 * scopeRank route := by
  unfold scopeRank specificityScopeMatch
  split_ifs <;> rfl

theorem totalScore_http {selector : HttpSelector} (htype : query.entityType = entityHttp)
    (hselector : route.http = some selector)
    (hbound : ∀ declared ∈ selector.pathPrefix,
      pathPrefixSpecificity declared ≤ longestRankedPrefix) :
    totalScore route query =
      (selector.pathPrefix.elim specificityExactPath fun declared =>
        1000 * pathPrefixSpecificity declared) +
      narrowingRank selector.method + 100 * scopeRank route := by
  have hnarrow := narrowingRank_le selector.method
  have hscope := scopeRank_le route
  have hlimit : longestRankedPrefix = 9223372036854775 := by decide
  have hexact : specificityExactPath = 9223372036854775807 := by decide
  have hmax : usizeMax = 18446744073709551615 := by decide
  unfold totalScore baseScore
  rw [if_pos htype, hselector, Option.elim_some, scopeBonus_eq_scopeRank, methodNarrowingBonus_eq]
  cases hdeclared : selector.pathPrefix with
  | none =>
    simp only [Option.elim_none, saturatingAdd]
    omega
  | some declared =>
    have hbytes := hbound declared hdeclared
    simp only [Option.elim_some, saturatingAdd, saturatingMul, specificityPathPrefixStep]
    omega

theorem nameScore_le_iff {m₁ m₂ : StringOrList} (h₁ : questionOnly m₁ = false)
    (h₂ : questionOnly m₂ = false) {s₁ s₂ : ℕ} (hs₁ : s₁ ≤ 1) (hs₂ : s₂ ≤ 1) :
    nameScore m₁ + 100 * s₁ ≤ nameScore m₂ + 100 * s₂ ↔
      nameRank m₁ < nameRank m₂ ∨ nameRank m₁ = nameRank m₂ ∧ s₁ ≤ s₂ := by
  have hclass : ∀ m, questionOnly m = false → (nameScore m = 0 ∧ nameRank m = 0) ∨
      (nameScore m = 300 ∧ nameRank m = 1) ∨ (nameScore m = 500 ∧ nameRank m = 2) ∨
      (nameScore m = 1000 ∧ nameRank m = 3) := by
    intro m hm
    cases m with
    | list names => exact .inr (.inr (.inl ⟨rfl, rfl⟩))
    | single pattern =>
      by_cases hstar : pattern = "*"
      · exact .inl ⟨by simp [nameScore, hstar, specificityWildcard], by simp [nameRank, hstar]⟩
      by_cases hglob : '*' ∈ pattern.toList
      · refine .inr (.inl ⟨by simp [nameScore, hstar, hglob, specificityGlob], ?_⟩)
        simp only [nameRank, hstar, if_false]
        rw [if_pos (List.any_eq_true.2 ⟨'*', hglob, rfl⟩)]
      · have hquestion : '?' ∉ pattern.toList := by
          simpa [questionOnly, hglob] using hm
        refine .inr (.inr (.inr ⟨by simp [nameScore, hstar, hglob, specificityExactName], ?_⟩))
        simp only [nameRank, hstar, if_false]
        rw [if_neg]
        simp only [List.any_eq_true, Bool.or_eq_true, beq_iff_eq, not_exists, not_and]
        rintro c hc (rfl | rfl)
        · exact hglob hc
        · exact hquestion hc
  rcases hclass m₁ h₁ with h | h | h | h <;> rcases hclass m₂ h₂ with h' | h' | h' | h' <;> omega

theorem totalScore_named {matcher : StringOrList} (htype : query.entityType ≠ entityHttp)
    (hmatcher : route.matcher query.entityType = some matcher) :
    totalScore route query = nameScore matcher + 100 * scopeRank route := by
  have hscope := scopeRank_le route
  have hname : nameScore matcher ≤ 1000 := by
    unfold nameScore specificityWildcard specificityGlob specificityExactName specificityNameList
    split
    · split_ifs <;> omega
    · omega
  have hmax : usizeMax = 18446744073709551615 := by decide
  unfold totalScore baseScore
  rw [if_neg htype, hmatcher, Option.elim_some, scopeBonus_eq_scopeRank, saturatingAdd]
  omega

theorem selector_of_routeMatches (htype : query.entityType = entityHttp)
    (h : routeMatches route query = true) :
    ∃ selector, route.http = some selector ∧
      httpSelectorMatches selector query.path query.method = true := by
  rw [routeMatches, if_pos htype, Bool.and_eq_true] at h
  simpa [Option.any_eq_true] using h.2

theorem matcher_of_routeMatches (htype : query.entityType ≠ entityHttp)
    (h : routeMatches route query = true) :
    ∃ matcher, route.matcher query.entityType = some matcher ∧
      matcher.matches query.name = true := by
  rw [routeMatches, if_neg htype, Bool.and_eq_true] at h
  simpa [Option.any_eq_true] using h.2

theorem pathPrefixMatches_of_httpSelectorMatches {selector : HttpSelector} {path declared : String}
    {method : Option String} (h : httpSelectorMatches selector path method = true)
    (hdeclared : selector.pathPrefix = some declared) : pathPrefixMatches path declared = true := by
  rw [httpSelectorMatches, hdeclared, Bool.and_eq_true] at h
  exact h.2

theorem totalScore_le_iff (h₁ : routeMatches r₁ query = true) (h₂ : routeMatches r₂ query = true)
    (hr₁ : ScoresAsRanked r₁ query) (hr₂ : ScoresAsRanked r₂ query) :
    totalScore r₁ query ≤ totalScore r₂ query ↔ routeRank r₁ query ≤ routeRank r₂ query := by
  have hs₁ := scopeRank_le r₁
  have hs₂ := scopeRank_le r₂
  unfold ScoresAsRanked at hr₁ hr₂
  by_cases htype : query.entityType = entityHttp
  · rw [if_pos htype] at hr₁ hr₂
    obtain ⟨σ₁, hσ₁, hm₁⟩ := selector_of_routeMatches htype h₁
    obtain ⟨σ₂, hσ₂, hm₂⟩ := selector_of_routeMatches htype h₂
    have hn₁ := narrowingRank_le σ₁.method
    have hn₂ := narrowingRank_le σ₂.method
    have hlimit : longestRankedPrefix = 9223372036854775 := by decide
    have hexact : specificityExactPath = 9223372036854775807 := by decide
    rw [totalScore_http htype hσ₁ (hr₁ σ₁ hσ₁), totalScore_http htype hσ₂ (hr₂ σ₂ hσ₂)]
    simp only [routeRank, if_pos htype, hσ₁, hσ₂, Option.elim_some]
    cases hd₁ : σ₁.pathPrefix with
    | none =>
      cases hd₂ : σ₂.pathPrefix with
      | none =>
        simp only [Option.elim_none, Specificity.of_le_iff, true_and]
        omega
      | some d₂ =>
        have hb₂ := hr₂ σ₂ hσ₂ d₂ hd₂
        simp only [Option.elim_none, Option.elim_some, Specificity.of_le_iff]
        omega
    | some d₁ =>
      have hb₁ := hr₁ σ₁ hσ₁ d₁ hd₁
      cases hd₂ : σ₂.pathPrefix with
      | none =>
        simp only [Option.elim_none, Option.elim_some, Specificity.of_le_iff]
        omega
      | some d₂ =>
        -- both are prefixes of the request's path, so bytes and segments agree
        have hp₁ := pathPrefixMatches_of_httpSelectorMatches hm₁ hd₁
        have hp₂ := pathPrefixMatches_of_httpSelectorMatches hm₂ hd₂
        have hlt := pathPrefixSpecificity_lt_iff hp₁ hp₂
        have hgt := pathPrefixSpecificity_lt_iff hp₂ hp₁
        simp only [Option.elim_some, Specificity.of_le_iff, true_and]
        omega
  · rw [if_neg htype] at hr₁ hr₂
    obtain ⟨m₁, hm₁, -⟩ := matcher_of_routeMatches htype h₁
    obtain ⟨m₂, hm₂, -⟩ := matcher_of_routeMatches htype h₂
    rw [totalScore_named htype hm₁, totalScore_named htype hm₂,
      nameScore_le_iff (hr₁ m₁ hm₁) (hr₂ m₂ hm₂) hs₁ hs₂]
    simp only [routeRank, if_neg htype, hm₁, hm₂, Option.elim_some, Specificity.of_le_iff,
      le_refl, and_true, true_and]
    omega

end Encoding

section Winner

variable {config : PolicyConfig} {query : RouteQuery}

theorem mem_candidates {config : PolicyConfig} {query : RouteQuery} {i : ℕ} {route : RouteEntry}
    (hroute : config.routes[i]? = some route) (hmatch : routeMatches route query = true) :
    ∃ name, (totalScore route query, ⟨i, route, name⟩) ∈
      config.routes.zipIdx.filterMap (scoredRoute query) := by
  have hscored := scoredRoute_fst query (route, i)
  rw [if_pos hmatch] at hscored
  obtain ⟨⟨total, matched⟩, hfound, htotal⟩ := Option.map_eq_some_iff.1 hscored
  obtain ⟨-, -, -, -, -, hindex, hsame⟩ := scoredRoute_eq_some_iff.1 hfound
  refine ⟨matched.name, List.mem_filterMap.2 ⟨(route, i), ?_, ?_⟩⟩
  · rw [List.mem_zipIdx_iff_getElem?]
    exact hroute
  · obtain ⟨index, route', name⟩ := matched
    simp only at htotal hindex hsame
    rw [hfound, ← htotal, hindex, hsame]

theorem of_mem_candidates {total : ℕ} {matched : MatchedRoute}
    (h : (total, matched) ∈ config.routes.zipIdx.filterMap (scoredRoute query)) :
    config.routes[matched.index]? = some matched.route ∧
      routeMatches matched.route query = true ∧ total = totalScore matched.route query := by
  obtain ⟨⟨route, i⟩, hentry, hfound⟩ := List.mem_filterMap.1 h
  obtain ⟨-, -, -, -, -, hindex, hsame⟩ := scoredRoute_eq_some_iff.1 hfound
  have hscored := scoredRoute_fst query (route, i)
  rw [hfound, Option.map_some] at hscored
  rw [List.mem_zipIdx_iff_getElem?] at hentry
  simp only at hindex hsame hentry hscored
  subst hindex hsame
  split_ifs at hscored with hmatch
  exact ⟨hentry, hmatch, Option.some.inj hscored⟩

/-- `none` only where nothing matches, and otherwise the first declared of the most specific
matches. -/
theorem resolveRoute_most_specific (config : PolicyConfig) (query : RouteQuery)
    (hranked : ∀ route ∈ config.routes, routeMatches route query = true →
      ScoresAsRanked route query) :
    (resolveRoute config query = none ↔
      ∀ route ∈ config.routes, routeMatches route query = false) ∧
    ∀ matched, resolveRoute config query = some matched →
      config.routes[matched.index]? = some matched.route ∧
      routeMatches matched.route query = true ∧
      ∀ (i : ℕ) (route : RouteEntry), config.routes[i]? = some route → routeMatches route query = true →
        routeRank route query ≤ routeRank matched.route query ∧
        (i < matched.index → routeRank route query < routeRank matched.route query) := by
  constructor
  · rw [resolveRoute, Option.map_eq_none_iff, firstMaximum_eq_none_iff]
    constructor
    · intro hnone route hroute
      obtain ⟨i, hi⟩ := List.mem_iff_getElem?.1 hroute
      rw [← Bool.not_eq_true]
      intro hmatch
      obtain ⟨name, hmem⟩ := mem_candidates hi hmatch
      rw [hnone] at hmem
      cases hmem
    · intro hall
      rw [List.eq_nil_iff_forall_not_mem]
      rintro ⟨total, matched⟩ hmem
      obtain ⟨hroute, hmatch, -⟩ := of_mem_candidates hmem
      rw [hall matched.route (List.mem_of_getElem? hroute)] at hmatch
      cases hmatch
  · intro matched hresolved
    obtain ⟨total, hbest⟩ := resolveRoute_eq_some hresolved
    obtain ⟨hroute, hmatch, htotal⟩ := of_mem_candidates hbest.mem
    refine ⟨hroute, hmatch, fun i route hi hother => ?_⟩
    have hown := hranked _ (List.mem_of_getElem? hroute) hmatch
    have hothers := hranked route (List.mem_of_getElem? hi) hother
    obtain ⟨name, hmem⟩ := mem_candidates hi hother
    have hstrict : routeRank route query < routeRank matched.route query ↔
        ¬ totalScore matched.route query ≤ totalScore route query := by
      rw [totalScore_le_iff hmatch hother hown hothers, not_le]
    rw [← totalScore_le_iff hother hmatch hothers hown, hstrict, ← htotal]
    rcases hbest.compare MatchedRoute.index (pairwise_index_candidates config query) hmem with
      hsame | ⟨hscore, hindex⟩ | ⟨hscore, hindex⟩
    · cases hsame
      exact ⟨le_refl _, fun hlt => absurd hlt (lt_irrefl _)⟩
    · exact ⟨hscore.le, fun _ => not_le.2 hscore⟩
    · exact ⟨hscore, fun hlt => absurd hlt (not_lt.2 hindex.le)⟩

end Winner

def ofRoutes (routes : List RouteEntry) : PolicyConfig := ⟨.default, [], ∅, routes, .default⟩

def toolRoute (pattern : String) : RouteEntry :=
  { RouteEntry.default with tool := some (.single pattern) }

def methodTokens (n : ℕ) : List String :=
  (List.range n).map fun i => String.ofList [Nat.digitChar (i / 10), Nat.digitChar (i % 10)]

def narrowedRoute (path : String) (methods : ℕ) : RouteEntry :=
  { RouteEntry.default with
    http := some (.byMatch ⟨some path, none, some (.list (methodTokens methods))⟩) }

/-- The longer method list wins by standing first, and the wildcard pattern over the literal name.
-/
theorem resolveRoute_not_most_specific :
    (resolveRoute (ofRoutes [narrowedRoute "/a" 51, narrowedRoute "/a" 50])
      (.http "/a" (some "00") none)).map MatchedRoute.index = some 0 ∧
    (resolveRoute (ofRoutes [toolRoute "get_pa?", toolRoute "get_pay"])
      (.named entityTool "get_pay" none)).map MatchedRoute.name = some "get_pa?" := by
  refine ⟨?_, ?_⟩
  · decide +kernel
  · decide

def layeredRoutes : PolicyConfig :=
  ofRoutes [
    { RouteEntry.default with http := some (.byMatch ⟨none, some "/", none⟩) },
    { RouteEntry.default with http := some (.byMatch ⟨none, some "/api", none⟩) },
    { RouteEntry.default with http := some (.path "/api/x") }]

theorem resolveRoute_most_specific_layeredRoutes :
    (resolveRoute layeredRoutes (.http "/api/y" none none)).map MatchedRoute.index = some 1 ∧
    ∀ matched, resolveRoute layeredRoutes (.http "/api/x" none none) = some matched →
      ∀ (i : ℕ) (route : RouteEntry), layeredRoutes.routes[i]? = some route →
        routeMatches route (.http "/api/x" none none) = true →
        routeRank route (.http "/api/x" none none) ≤
          routeRank matched.route (.http "/api/x" none none) := by
  refine ⟨by decide, fun matched hresolved i route hi hmatch => ?_⟩
  refine (((resolveRoute_most_specific layeredRoutes (.http "/api/x" none none) ?_).2 matched
    hresolved).2.2 i route hi hmatch).1
  intro route hroute _
  fin_cases hroute <;> simp [ScoresAsRanked] <;> decide

end PraxisPolicy
