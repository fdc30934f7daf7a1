import PraxisPolicy.RouteSelectors
import Mathlib

/-!
# A rendered name determines the match

The name an HTTP request resolves to spells out what the match consumed.  No method token holds a
separator, so one name comes from one selector that passes validation.
-/

namespace PraxisPolicy

open TextScanning

section Keys

structure HttpKey where
  byPrefix : Bool
  declared : String
  methods : Option (List String)

def HttpKey.render (key : HttpKey) : String :=
  let methods := key.methods.map (String.intercalate ",")
  if key.byPrefix then renderedPrefixName key.declared methods
  else renderedExactName key.declared methods

def MethodAdmitted (methods : Option (List String)) (method : Option String) : Prop :=
  ∀ ms ∈ methods, ∃ m ∈ method, toAsciiUppercase m ∈ ms

def HttpKey.Admits (key : HttpKey) (path : String) (method : Option String) : Prop :=
  isAbsolute path = true ∧ MethodAdmitted key.methods method ∧
    if key.byPrefix then pathPrefixMatches path key.declared = true else path = key.declared

def HttpKey.score (key : HttpKey) : ℕ :=
  saturatingAdd
    (if key.byPrefix then
      saturatingMul (pathPrefixSpecificity key.declared) specificityPathPrefixStep
    else specificityExactPath) (narrowingBonus key.methods)

def matchedHttpKey (selector : HttpSelector) (path : String) : Option HttpKey :=
  let methods := normalizedMethods selector.method
  match selector.pathPrefix with
  | some declared => some ⟨true, declared, methods⟩
  | none => (matchedExactPath selector path).map fun declared => ⟨false, declared, methods⟩

theorem matchedHttpName_eq (selector : HttpSelector) (path : String) :
    matchedHttpName selector path = (matchedHttpKey selector path).map HttpKey.render := by
  unfold matchedHttpName matchedHttpKey
  cases selector.pathPrefix <;> simp [HttpKey.render, renderedMethods, Function.comp_def]

theorem eqIgnoreAsciiCase_iff (s t : String) :
    eqIgnoreAsciiCase s t = true ↔ toAsciiUppercase s = toAsciiUppercase t := by
  have hlower : ∀ s, toAsciiLowercase (toAsciiUppercase s) = toAsciiLowercase s := by
    intro s
    simp [toAsciiLowercase, toAsciiUppercase, Function.comp_def]
  have hupper : ∀ s, toAsciiUppercase (toAsciiLowercase s) = toAsciiUppercase s := by
    intro s
    simp [toAsciiLowercase, toAsciiUppercase, Function.comp_def]
  rw [eqIgnoreAsciiCase, beq_iff_eq]
  constructor
  · intro h
    rw [← hupper s, h, hupper]
  · intro h
    rw [← hlower s, h, hlower]

theorem httpMethodMatches_iff (accepted : Option StringOrList) (method : Option String) :
    httpMethodMatches accepted method = true ↔
      MethodAdmitted (normalizedMethods accepted) method := by
  unfold MethodAdmitted
  cases accepted with
  | none => simp [httpMethodMatches, normalizedMethods]
  | some accepted =>
    cases method with
    | none => simp [httpMethodMatches, normalizedMethods]
    | some method =>
      simp [httpMethodMatches, normalizedMethods, mem_destutter_ne, eqIgnoreAsciiCase_iff]

variable {method : Option String}

theorem scoreHttpMatch_eq_some_iff {selector : HttpSelector} {path : String} {score : ℕ} :
    scoreHttpMatch selector path method = some score ↔
      ∃ key, matchedHttpKey selector path = some key ∧ key.Admits path method ∧
        key.score = score := by
  have hmethods := httpMethodMatches_iff selector.method method
  unfold scoreHttpMatch
  by_cases hreq : (isAbsolute path && httpMethodMatches selector.method method) = true
  · obtain ⟨habsolute, hmethod⟩ := Bool.and_eq_true_iff.1 hreq
    rw [if_pos hreq]
    cases hdeclared : selector.pathPrefix with
    | some declared =>
      by_cases hmatch : pathPrefixMatches path declared = true <;>
        simp [matchedHttpKey, hdeclared, HttpKey.Admits, habsolute, hmethods.1 hmethod, hmatch,
          HttpKey.score, methodNarrowingBonus]
    | none =>
      cases hexact : matchedExactPath selector path with
      | none => simp [matchedHttpKey, hdeclared, hexact]
      | some declared =>
        obtain rfl : path = declared := by simpa using List.find?_some hexact
        simp [matchedHttpKey, hdeclared, hexact, HttpKey.Admits, habsolute,
          hmethods.1 hmethod, HttpKey.score, methodNarrowingBonus]
  · rw [if_neg hreq]
    simp only [reduceCtorEq, false_iff, not_exists, not_and]
    intro key hkey hadmits
    have hnormal : key.methods = normalizedMethods selector.method := by
      unfold matchedHttpKey at hkey
      split at hkey
      · exact (Option.some.inj hkey) ▸ rfl
      · obtain ⟨declared, -, rfl⟩ := Option.map_eq_some_iff.1 hkey
        rfl
    refine absurd ?_ hreq
    rw [Bool.and_eq_true, hmethods, ← hnormal]
    exact ⟨hadmits.1, hadmits.2.1⟩

end Keys

section Rendering

/-- Absolute paths and method tokens. -/
structure HttpKey.WellFormed (key : HttpKey) : Prop where
  absolute : isAbsolute key.declared = true
  tokens : ∀ methods ∈ key.methods, methods ≠ [] ∧ ∀ m ∈ methods, isHttpMethodToken m = true

theorem isMethodChar_toUpper {c : Char} (h : isMethodChar c = true) :
    isMethodChar c.toUpper = true := by
  by_cases hlower : c.isLower = true
  · have halpha : c.isAlpha = true := by simp [Char.isAlpha, hlower]
    simp [isMethodChar, Char.isAlphanum, halpha]
  · rwa [Char.toUpper_eq_of_not_isLower hlower]

theorem tokens_of_methodDefect {method : StringOrList} (h : methodDefect method = none) :
    method.asNames ≠ [] ∧ ∀ m ∈ method.asNames, isHttpMethodToken m = true := by
  unfold methodDefect at h
  split at h
  · cases h
  · rename_i hne
    have htoken : method.asNames.find? (fun name => !isHttpMethodToken name) = none := by
      split at h
      · cases h
      · simpa using h
    refine ⟨?_, by simpa using htoken⟩
    rintro hnil
    cases method with
    | single pattern => cases hnil
    | list names => exact hne (congrArg StringOrList.list hnil)

theorem normalizedMethods_tokens {method : Option StringOrList}
    (h : method.bind methodDefect = none) :
    ∀ methods ∈ normalizedMethods method,
      methods ≠ [] ∧ ∀ m ∈ methods, isHttpMethodToken m = true := by
  intro methods hmethods
  obtain ⟨accepted, rfl, rfl⟩ := Option.map_eq_some_iff.1 hmethods
  have htokens := tokens_of_methodDefect h
  have hmem : ∀ m, m ∈ ((accepted.asNames.map toAsciiUppercase).insertionSort (· ≤ ·)).destutter
      (· ≠ ·) ↔ ∃ name ∈ accepted.asNames, toAsciiUppercase name = m := by
    intro m
    rw [mem_destutter_ne, List.mem_insertionSort, List.mem_map]
  constructor
  · obtain ⟨name, hname⟩ := List.exists_mem_of_ne_nil _ htokens.1
    exact List.ne_nil_of_mem ((hmem _).2 ⟨name, hname, rfl⟩)
  · intro m hm
    obtain ⟨name, hname, rfl⟩ := (hmem m).1 hm
    have htoken := htokens.2 name hname
    simp only [isHttpMethodToken, Bool.and_eq_true, List.all_eq_true, toAsciiUppercase,
      String.toList_ofList] at htoken ⊢
    refine ⟨by simpa using htoken.1, fun c hc => ?_⟩
    obtain ⟨d, hd, rfl⟩ := List.mem_map.1 hc
    exact isMethodChar_toUpper (htoken.2 d hd)

theorem isAbsolute_of_defect {key path : String} (h : nonAbsolutePathDefect key path = none) :
    isAbsolute path = true := by
  unfold nonAbsolutePathDefect at h
  split at h
  · assumption
  · cases h

variable {selector : HttpSelector} {declared : String} {methods : List String}

theorem isAbsolute_pathPrefix (h : selector.defect = none)
    (hdeclared : selector.pathPrefix = some declared) :
    isAbsolute declared = true := by
  cases selector with
  | path _ => cases hdeclared
  | paths _ => cases hdeclared
  | byMatch m =>
    have hpath := (Option.or_eq_none_iff.1 h).2
    obtain ⟨exact, pathPrefix, method⟩ := m
    obtain rfl : pathPrefix = some declared := hdeclared
    cases exact with
    | some _ => cases hpath
    | none =>
      dsimp only at hpath
      split at hpath
      · cases hpath
      · exact isAbsolute_of_defect hpath

theorem isAbsolute_exactPath (h : selector.defect = none) (hexact : selector.pathPrefix = none)
    (hmem : declared ∈ selector.exactPaths) : isAbsolute declared = true := by
  cases selector with
  | path only =>
    obtain rfl := List.mem_singleton.1 hmem
    simp only [HttpSelector.defect] at h
    split at h
    · cases h
    · exact isAbsolute_of_defect h
  | paths all =>
    simp only [HttpSelector.defect] at h
    split at h
    · cases h
    · split at h
      · cases h
      · exact isAbsolute_of_defect (List.findSome?_eq_none_iff.1 h declared hmem)
  | byMatch m =>
    have hpath := (Option.or_eq_none_iff.1 h).2
    obtain ⟨exact, pathPrefix, method⟩ := m
    obtain rfl : pathPrefix = none := hexact
    obtain rfl : exact = some declared := by simpa [HttpSelector.exactPaths] using hmem
    dsimp only at hpath
    split at hpath
    · cases hpath
    · exact isAbsolute_of_defect hpath

theorem wellFormed_matchedHttpKey (h : selector.defect = none) {path : String} {key : HttpKey}
    (hkey : matchedHttpKey selector path = some key) :
    key.WellFormed := by
  have hmethods : selector.method.bind methodDefect = none := by
    cases selector with
    | path _ => rfl
    | paths _ => rfl
    | byMatch m => exact (Option.or_eq_none_iff.1 h).1
  unfold matchedHttpKey at hkey
  cases hdeclared : selector.pathPrefix with
  | some declared =>
    rw [hdeclared] at hkey
    obtain rfl := Option.some.inj hkey
    exact ⟨isAbsolute_pathPrefix h hdeclared, normalizedMethods_tokens hmethods⟩
  | none =>
    rw [hdeclared] at hkey
    obtain ⟨declared, hexact, rfl⟩ := Option.map_eq_some_iff.1 hkey
    exact ⟨isAbsolute_exactPath h hdeclared (List.mem_of_find?_eq_some hexact),
      normalizedMethods_tokens hmethods⟩

theorem append_cons_inj {α : Type} {a : α} {x₁ x₂ z₁ z₂ : List α} (h₁ : a ∉ x₁) (h₂ : a ∉ x₂)
    (h : x₁ ++ a :: z₁ = x₂ ++ a :: z₂) : x₁ = x₂ ∧ z₁ = z₂ := by
  induction x₁ generalizing x₂ with
  | nil =>
    cases x₂ with
    | nil => exact ⟨rfl, (List.cons.inj h).2⟩
    | cons b x₂ => exact absurd (List.cons.inj h).1 (fun hab => h₂ (hab ▸ List.mem_cons_self))
  | cons b x₁ ih =>
    cases x₂ with
    | nil => exact absurd (List.cons.inj h).1.symm (fun hab => h₁ (hab ▸ List.mem_cons_self))
    | cons c x₂ =>
      obtain ⟨rfl, hrest⟩ := List.cons.inj h
      obtain ⟨rfl, rfl⟩ := ih (fun hm => h₁ (List.mem_cons_of_mem _ hm))
        (fun hm => h₂ (List.mem_cons_of_mem _ hm)) hrest
      exact ⟨rfl, rfl⟩

def isMethodsChar (c : Char) : Bool := isMethodChar c || c == ','

theorem all_isMethodsChar_intercalate (h : ∀ m ∈ methods, isHttpMethodToken m = true) :
    ∀ c ∈ (String.intercalate "," methods).toList, isMethodsChar c = true := by
  have htoken : ∀ m ∈ methods, ∀ c ∈ m.toList, isMethodsChar c = true := by
    intro m hm c hc
    have hall := (Bool.and_eq_true_iff.1 (h m hm)).2
    simp [isMethodsChar, List.all_eq_true.1 hall c hc]
  rw [String.toList_intercalate]
  induction methods with
  | nil => simp
  | cons m rest ih =>
    have ih := ih (fun m hm => h m (List.mem_cons_of_mem _ hm))
      (fun m hm => htoken m (List.mem_cons_of_mem _ hm))
    cases rest with
    | nil => simpa using htoken m List.mem_cons_self
    | cons m' rest =>
      intro c hc
      rw [List.map_cons, List.map_cons, List.intercalate_cons_cons, List.mem_append,
        List.mem_append] at hc
      rcases hc with (hc | hc) | hc
      · exact htoken m List.mem_cons_self c hc
      · obtain rfl : c = ',' := by simpa using hc
        decide
      · exact ih c hc

theorem intercalate_comma_inj {ms₁ ms₂ : List String}
    (h₁ : ms₁ ≠ [] ∧ ∀ m ∈ ms₁, isHttpMethodToken m = true)
    (h₂ : ms₂ ≠ [] ∧ ∀ m ∈ ms₂, isHttpMethodToken m = true)
    (h : String.intercalate "," ms₁ = String.intercalate "," ms₂) : ms₁ = ms₂ := by
  have hcomma : ∀ {ms : List String}, (∀ m ∈ ms, isHttpMethodToken m = true) →
      ∀ l ∈ ms.map String.toList, ',' ∉ l := by
    intro ms hms l hl hmem
    obtain ⟨m, hm, rfl⟩ := List.mem_map.1 hl
    have hall := (Bool.and_eq_true_iff.1 (hms m hm)).2
    exact absurd (List.all_eq_true.1 hall ',' hmem) (by decide)
  have hlists := congrArg (fun s => List.splitOn ',' s.toList) h
  have htext : ",".toList = [','] := rfl
  simp only [String.toList_intercalate, htext] at hlists
  rw [List.splitOn_intercalate _ (hcomma h₁.2) (by simpa using h₁.1),
    List.splitOn_intercalate _ (hcomma h₂.2) (by simpa using h₂.1)] at hlists
  exact List.map_injective_iff.2 (fun _ _ => String.toList_injective) hlists

theorem toList_render_methods (byPrefix : Bool) (declared : String) (methods : List String) :
    (HttpKey.render ⟨byPrefix, declared, some methods⟩).toList =
      (String.intercalate "," methods).toList ++ ' ' ::
        ((if byPrefix then "prefix:" else "path:").toList ++ declared.toList) := by
  cases byPrefix <;> simp [HttpKey.render, renderedPrefixName, renderedExactName]

theorem notMem_methods (h : ∀ m ∈ methods, isHttpMethodToken m = true) {c : Char}
    (hc : isMethodsChar c = false) : c ∉ (String.intercalate "," methods).toList := by
  intro hmem
  rw [all_isMethodsChar_intercalate h c hmem] at hc
  cases hc

theorem render_ne_of_methods (k : HttpKey) (hk : isAbsolute k.declared = true)
    (hnone : k.methods = none) {byPrefix : Bool} (h : ∀ m ∈ methods, isHttpMethodToken m = true) :
    k.render ≠ HttpKey.render ⟨byPrefix, declared, some methods⟩ := by
  intro heq
  have hlist := congrArg String.toList heq
  rw [toList_render_methods] at hlist
  obtain ⟨byPrefix', declared', methods'⟩ := k
  obtain rfl : methods' = none := hnone
  cases byPrefix' with
  | false =>
    -- an exact path starts with a slash, which is neither in a method nor a blank
    have hhead : declared'.toList.head? = some '/' := by simpa [isAbsolute] using hk
    have hrender : (HttpKey.render ⟨false, declared', none⟩).toList = declared'.toList := rfl
    rw [← hrender, hlist] at hhead
    cases hmethods : (String.intercalate "," methods).toList with
    | nil =>
      rw [hmethods] at hhead
      exact absurd (Option.some.inj hhead) (by decide)
    | cons c rest =>
      rw [hmethods] at hhead
      obtain rfl : c = '/' := Option.some.inj hhead
      exact notMem_methods h rfl (hmethods ▸ List.mem_cons_self)
  | true =>
    -- the first separator of a prefix name is its colon
    have hfind := congrArg (List.find? fun c => c == ' ' || c == ':') hlist
    have hclean : (String.intercalate "," methods).toList.find? (fun c => c == ' ' || c == ':') =
        none := by
      refine List.find?_eq_none.2 fun c hc hsep => ?_
      rcases Bool.or_eq_true_iff.1 hsep with hsep | hsep <;> obtain rfl := beq_iff_eq.1 hsep <;>
        exact notMem_methods h rfl hc
    rw [List.find?_append, hclean] at hfind
    simp [HttpKey.render, renderedPrefixName] at hfind

theorem HttpKey.render_inj {k₁ k₂ : HttpKey} (h₁ : k₁.WellFormed) (h₂ : k₂.WellFormed)
    (h : k₁.render = k₂.render) : k₁ = k₂ := by
  obtain ⟨byPrefix₁, declared₁, methods₁⟩ := k₁
  obtain ⟨byPrefix₂, declared₂, methods₂⟩ := k₂
  cases methods₁ with
  | none =>
    cases methods₂ with
    | some ms₂ => exact absurd h (render_ne_of_methods _ h₁.absolute rfl (h₂.tokens ms₂ rfl).2)
    | none =>
      have hlist := congrArg String.toList h
      have hhead₁ : declared₁.toList.head? = some '/' := by simpa [isAbsolute] using h₁.absolute
      have hhead₂ : declared₂.toList.head? = some '/' := by simpa [isAbsolute] using h₂.absolute
      -- `prefix:` does not start with a slash
      cases byPrefix₁ <;> cases byPrefix₂ <;>
        simp [HttpKey.render, renderedPrefixName, renderedExactName] at hlist
      · rw [String.toList_injective hlist]
      · rw [hlist] at hhead₁
        simp at hhead₁
      · rw [← hlist] at hhead₂
        simp at hhead₂
      · rw [String.toList_injective hlist]
  | some ms₁ =>
    cases methods₂ with
    | none => exact absurd h.symm (render_ne_of_methods _ h₂.absolute rfl (h₁.tokens ms₁ rfl).2)
    | some ms₂ =>
      have ht₁ := h₁.tokens ms₁ rfl
      have ht₂ := h₂.tokens ms₂ rfl
      have hlist := congrArg String.toList h
      rw [toList_render_methods, toList_render_methods] at hlist
      obtain ⟨hmethods, hrest⟩ := append_cons_inj (notMem_methods ht₁.2 rfl)
        (notMem_methods ht₂.2 rfl) hlist
      obtain rfl := intercalate_comma_inj ht₁ ht₂ (String.toList_injective hmethods)
      cases byPrefix₁ <;> cases byPrefix₂ <;> simp at hrest <;>
        rw [String.toList_injective hrest]

theorem slash_mem_render {key : HttpKey} (h : isAbsolute key.declared = true) :
    '/' ∈ key.render.toList := by
  have hhead : key.declared.toList.head? = some '/' := by simpa [isAbsolute] using h
  have hslash : '/' ∈ key.declared.toList := List.mem_of_mem_head? hhead
  unfold HttpKey.render
  cases key.byPrefix <;> cases key.methods <;>
    simp [renderedPrefixName, renderedExactName, hslash]

theorem scoreHttpMatch_of_same_name {σ₁ σ₂ : HttpSelector} (hd₁ : σ₁.defect = none)
    (hd₂ : σ₂.defect = none) {p₁ p₂ : String} {m₁ m₂ : Option String} {s₁ s₂ : ℕ} {name : String}
    (hs₁ : scoreHttpMatch σ₁ p₁ m₁ = some s₁) (hn₁ : matchedHttpName σ₁ p₁ = some name)
    (hs₂ : scoreHttpMatch σ₂ p₂ m₂ = some s₂) (hn₂ : matchedHttpName σ₂ p₂ = some name) :
    scoreHttpMatch σ₁ p₂ m₂ = some s₁ ∧ matchedHttpName σ₁ p₂ = some name := by
  obtain ⟨key, hkey, hadmits₁, rfl⟩ := scoreHttpMatch_eq_some_iff.1 hs₁
  obtain ⟨key₂, hkey₂, hadmits, rfl⟩ := scoreHttpMatch_eq_some_iff.1 hs₂
  rw [matchedHttpName_eq, hkey] at hn₁
  rw [matchedHttpName_eq, hkey₂] at hn₂
  obtain rfl : key = key₂ := HttpKey.render_inj (wellFormed_matchedHttpKey hd₁ hkey)
    (wellFormed_matchedHttpKey hd₂ hkey₂) (Option.some.inj (hn₁.trans hn₂.symm))
  have hkey' : matchedHttpKey σ₁ p₂ = some key := by
    unfold matchedHttpKey at hkey ⊢
    cases hdeclared : σ₁.pathPrefix with
    | some declared => simpa [hdeclared] using hkey
    | none =>
      rw [hdeclared] at hkey
      obtain ⟨declared, hexact, rfl⟩ := Option.map_eq_some_iff.1 hkey
      have hsame : p₂ = p₁ := hadmits.2.2.trans hadmits₁.2.2.symm
      simp [hsame, hexact]
  refine ⟨scoreHttpMatch_eq_some_iff.2 ⟨key, hkey', hadmits, rfl⟩, ?_⟩
  rw [matchedHttpName_eq, hkey']
  exact hn₁

end Rendering

end PraxisPolicy
