import PraxisPolicy.EncodedText
import PraxisPolicy.ExtensionRecords
import PraxisPolicy.StepInvokers

/-!
# Folding backend constraints

The constraints of all `restrict` effects are folded into one: allow-lists intersect, the rest
collects.  Whoever passes the folded constraint passes each of them.
-/

namespace PraxisPolicy

open EncodedText HashMaps TextScanning

def starByte : UInt8 := 42

/-- What is left of pattern and text and, once a `*` was passed, the pattern behind it and the text
to resume from. -/
def globLoop (p t : List UInt8) (star : Option (List UInt8 × List UInt8))
    (h : ∀ s ∈ star, t.length ≤ s.2.length) : Bool :=
  match t, h with
  | [], _ => (p.dropWhile (· == starByte)).isEmpty
  | tb :: t, h =>
    let mismatch : Bool := match star, h with
      | none, _ => false
      | some (_, []), _ => false
      | some (behind, _ :: resume), _ =>
        globLoop behind resume (some (behind, resume)) (by simp)
    match p with
    | [] => mismatch
    | pb :: p =>
      if pb = tb then
        globLoop p t star fun s hs => (Nat.le_succ _).trans (h s hs)
      else if pb = starByte then globLoop p (tb :: t) (some (p, tb :: t)) (by simp)
      else mismatch
termination_by (star.elim (t.length + 1) (·.2.length), p.length)
decreasing_by
  · simp [Prod.lex_def]
  · cases star <;> simp [Prod.lex_def]
  · cases star with
    | none => simp [Prod.lex_def]
    | some s =>
      have hle := h s rfl
      simp only [List.length_cons] at hle
      simp only [Option.elim_some, List.length_cons, Prod.lex_def]
      omega

def globMatch (pattern text : String) : Bool :=
  globLoop (encode pattern) (encode text) none (by simp)

/-- A literal star of the text is taken for the wildcard. -/
example : globMatch "a*" "ab" = true ∧ globMatch "*b" "*ab" = false := by
  simp [globMatch, encode, globLoop, starByte, String.utf8EncodeChar]

abbrev BackendLabels := String → Option String

/-- The label is there and on the list, if there is a list. -/
def allowed (allow : Option (List String)) (test : String → String → Bool) (label : Option String) :
    Bool :=
  allow.all fun patterns => label.any fun value => patterns.any (test · value)

def CandidateConstraintExtension.isEmpty (c : CandidateConstraintExtension) : Bool :=
  c.allowModels.isNone && c.denyModels.isEmpty && c.allowRegions.isNone && c.allowSites.isNone &&
    c.maxCostTiers.isEmpty && decide (c.custom = ∅)

/-- A backend without a rank is not within any ceiling. -/
def withinTiers (tierRank : String → Option ℕ) (tiers : List String) (label : Option String) :
    Bool :=
  tiers.isEmpty || (label.bind tierRank).any fun rank =>
    tiers.all fun ceiling => (tierRank ceiling).any fun bound => decide (rank ≤ bound)

/-- `accepts`.  Every required label is looked up, whatever the order of the map. -/
def CandidateConstraintExtension.accepts (c : CandidateConstraintExtension)
    (backend : BackendLabels) (tierRank : String → Option ℕ) : Bool :=
  allowed c.allowModels globMatch (backend "model") &&
    !((backend "model").any fun model => c.denyModels.any (globMatch · model)) &&
    allowed c.allowRegions (· == ·) (backend "region") &&
    allowed c.allowSites (· == ·) (backend "site") &&
    withinTiers tierRank c.maxCostTiers (backend "cost_tier") &&
    decide (∀ k ∈ c.custom.keys, backend k = c.custom.lookup k)

/-- What a single `restrict` asks of a backend, by its own lists, ceiling and labels. -/
def CandidateConstraint.acceptsAlone (c : CandidateConstraint) (backend : BackendLabels)
    (tierRank : String → Option ℕ) : Bool :=
  CandidateConstraintExtension.accepts
    ⟨c.allowModels, c.denyModels, c.allowRegions, c.allowSites, c.maxCostTier.toList, c.custom,
      c.onEmpty⟩ backend tierRank

structure ConstraintConflict where
  key : String
  existing : String
  incoming : String
  deriving DecidableEq, Repr

def ConstraintConflict.toString (e : ConstraintConflict) : String :=
  "conflicting `restrict` custom label `" ++ e.key ++ "`: `" ++ e.existing ++ "` vs `" ++
    e.incoming ++ "` (no backend can be both)"

def strictest : OnEmpty → OnEmpty → OnEmpty
  | .fallback, .fallback => .fallback
  | _, _ => .deny

/-- The first list becomes the running one, without repetitions and in order. -/
def intersectInto (acc incoming : Option (List String)) : Option (List String) :=
  match incoming, acc with
  | none, _ => acc
  | some incoming, none => some (sortedTexts incoming.toFinset)
  | some incoming, some existing => some (existing.filter (· ∈ incoming.toFinset))

/-- What the loop carries. -/
structure FoldState where
  allowModels : Option (List String)
  allowRegions : Option (List String)
  allowSites : Option (List String)
  denyModels : Finset String
  tiers : Finset String
  custom : HashMap String String
  onEmpty : OnEmpty

def FoldState.start : FoldState := ⟨none, none, none, ∅, ∅, ∅, .fallback⟩

def inKeyOrder (m : HashMap String String) : List (String × String) :=
  (sortedTexts m.keys).filterMap fun k => (m.lookup k).map (k, ·)

def requireLabel (custom : HashMap String String) (label : String × String) :
    Except ConstraintConflict (HashMap String String) :=
  match custom.lookup label.1 with
  | some existing =>
    if existing ≠ label.2 then .error ⟨label.1, existing, label.2⟩ else .ok custom
  | none => .ok (custom.insert label.1 label.2)

def FoldState.add (s : FoldState) (c : CandidateConstraint) : Except ConstraintConflict FoldState :=
  do
    let custom ← (inKeyOrder c.custom).foldlM requireLabel s.custom
    return {
      allowModels := intersectInto s.allowModels c.allowModels
      allowRegions := intersectInto s.allowRegions c.allowRegions
      allowSites := intersectInto s.allowSites c.allowSites
      denyModels := s.denyModels ∪ c.denyModels.toFinset
      tiers := s.tiers ∪ c.maxCostTier.toFinset
      custom := custom
      onEmpty := strictest s.onEmpty c.onEmpty }

def FoldState.folded (s : FoldState) : CandidateConstraintExtension where
  allowModels := s.allowModels
  denyModels := sortedTexts s.denyModels
  allowRegions := s.allowRegions
  allowSites := s.allowSites
  maxCostTiers := sortedTexts s.tiers
  custom := s.custom
  onEmpty := s.onEmpty

def foldCandidateConstraints (constraints : List CandidateConstraint) :
    Except ConstraintConflict (Option CandidateConstraintExtension) :=
  if constraints.isEmpty then .ok none
  else do
    let s ← constraints.foldlM FoldState.add FoldState.start
    return if s.folded.isEmpty then none else some s.folded

section Meets

/-- What optional lists share; nothing is required if none is there. -/
structure MeetOf (lists : List (Option (List String))) (acc : Option (List String)) : Prop where
  none_iff : acc = none ↔ ∀ l ∈ lists, l = none
  sorted : ∀ l, acc = some l → l.Pairwise (· < ·)
  mem_iff : ∀ l, acc = some l → ∀ x, x ∈ l ↔ ∀ l', some l' ∈ lists → x ∈ l'

variable {lists lists' : List (Option (List String))} {acc acc' : Option (List String)}

theorem MeetOf.nil : MeetOf [] none where
  none_iff := by simp
  sorted := by simp
  mem_iff := by simp

theorem MeetOf.intersectInto (h : MeetOf lists acc) (incoming : Option (List String)) :
    MeetOf (lists ++ [incoming]) (intersectInto acc incoming) := by
  cases incoming with
  | none =>
    refine ⟨?_, h.sorted, fun l hl x => ?_⟩
    · rw [PraxisPolicy.intersectInto, h.none_iff]
      simp [or_imp]
    · rw [h.mem_iff l hl]
      simp
  | some incoming =>
    cases acc with
    | none =>
      have hnone := h.none_iff.mp rfl
      refine ⟨by simp [PraxisPolicy.intersectInto], ?_, ?_⟩
      · rintro _ ⟨⟩
        exact (Finset.sortedLT_sort _).pairwise
      · rintro _ ⟨⟩ x
        rw [mem_sortedTexts, List.mem_toFinset]
        refine ⟨fun hx l' hl' => ?_, fun hx => hx incoming (by simp)⟩
        rcases List.mem_append.mp hl' with hl' | hl'
        · cases hnone _ hl'
        · cases List.mem_singleton.mp hl'
          exact hx
    | some existing =>
      refine ⟨by simp [PraxisPolicy.intersectInto], ?_, ?_⟩
      · rintro _ ⟨⟩
        exact (h.sorted existing rfl).filter _
      · rintro _ ⟨⟩ x
        rw [List.mem_filter, h.mem_iff existing rfl]
        simp only [List.mem_toFinset, decide_eq_true_eq, List.mem_append, List.mem_singleton,
          Option.some.injEq]
        constructor
        · rintro ⟨hall, hx⟩ l' (hl' | rfl)
          · exact hall l' hl'
          · exact hx
        · intro hall
          exact ⟨fun l' hl' => hall l' (.inl hl'), hall incoming (.inr rfl)⟩

theorem MeetOf.unique (h : MeetOf lists acc) (h' : MeetOf lists' acc')
    (hlists : ∀ l, l ∈ lists ↔ l ∈ lists') : acc = acc' := by
  have hnone : acc = none ↔ acc' = none := by
    simp only [h.none_iff, h'.none_iff, hlists]
  cases acc with
  | none => exact (hnone.mp rfl).symm
  | some l =>
    cases acc' with
    | none => cases hnone.mpr rfl
    | some l' =>
      have hmem : ∀ x, x ∈ l ↔ x ∈ l' := by
        intro x
        rw [h.mem_iff l rfl, h'.mem_iff l' rfl]
        simp only [hlists]
      exact congrArg some <| (h.sorted l rfl).eq_of_mem_iff (h'.sorted l' rfl) hmem

end Meets

section Collecting

variable {cs cs' : List CandidateConstraint} {c : CandidateConstraint} {s s' : FoldState}

/-- Some constraint requires the label to have the value. -/
def Requires (cs : List CandidateConstraint) (k v : String) : Prop :=
  ∃ c ∈ cs, c.custom.lookup k = some v

structure FoldState.Collects (s : FoldState) (cs : List CandidateConstraint) : Prop where
  models : MeetOf (cs.map CandidateConstraint.allowModels) s.allowModels
  regions : MeetOf (cs.map CandidateConstraint.allowRegions) s.allowRegions
  sites : MeetOf (cs.map CandidateConstraint.allowSites) s.allowSites
  deny : ∀ x, x ∈ s.denyModels ↔ ∃ c ∈ cs, x ∈ c.denyModels
  tiers : ∀ x, x ∈ s.tiers ↔ ∃ c ∈ cs, c.maxCostTier = some x
  custom : ∀ k v, s.custom.lookup k = some v ↔ Requires cs k v
  strict : s.onEmpty = .deny ↔ ∃ c ∈ cs, c.onEmpty = .deny

theorem strictest_eq_deny {a b : OnEmpty} : strictest a b = .deny ↔ a = .deny ∨ b = .deny := by
  cases a <;> cases b <;> simp [strictest]

variable {k v : String} {label : String × String} {e : ConstraintConflict}

theorem mem_inKeyOrder {m : HashMap String String} :
    (k, v) ∈ inKeyOrder m ↔ m.lookup k = some v := by
  simp only [inKeyOrder, List.mem_filterMap, mem_sortedTexts, Finmap.mem_keys,
    Option.map_eq_some_iff, Prod.mk.injEq]
  constructor
  · rintro ⟨k', -, v', hv, rfl, rfl⟩
    exact hv
  · intro hv
    exact ⟨k, Finmap.mem_of_lookup_eq_some hv, v, hv, rfl, rfl⟩

theorem requireLabel_ok {custom custom' : HashMap String String}
    (h : requireLabel custom label = .ok custom') (k v : String) :
    custom'.lookup k = some v ↔ custom.lookup k = some v ∨ (k, v) = label := by
  obtain ⟨key, value⟩ := label
  unfold requireLabel at h
  split at h
  next existing hexisting =>
    split at h
    · cases h
    next heq =>
      cases h
      rw [not_not] at heq
      subst heq
      refine ⟨.inl, ?_⟩
      rintro (hv | hv)
      · exact hv
      · cases hv
        exact hexisting
  next hnone =>
    cases h
    simp only at hnone
    rw [lookup_insert_eq, Prod.mk.injEq]
    by_cases hk : k = key
    · subst hk
      simp [hnone, eq_comm]
    · simp [hk]

theorem requireLabel_error {custom : HashMap String String}
    (h : requireLabel custom label = .error e) :
    ∃ v, v ≠ label.2 ∧ custom.lookup label.1 = some v := by
  unfold requireLabel at h
  split at h
  next existing hexisting =>
    split at h
    next hne => exact ⟨existing, hne, hexisting⟩
    · cases h
  · cases h

theorem foldlM_requireLabel (custom : HashMap String String) (labels : List (String × String)) :
    match labels.foldlM requireLabel custom with
    | .ok custom' => ∀ k v, custom'.lookup k = some v ↔ custom.lookup k = some v ∨ (k, v) ∈ labels
    | .error _ => ∃ k v v', v ≠ v' ∧ (custom.lookup k = some v ∨ (k, v) ∈ labels) ∧
        (k, v') ∈ labels := by
  induction labels generalizing custom with
  | nil => simp [pure, Except.pure]
  | cons label labels ih =>
    rw [List.foldlM_cons]
    cases hfirst : requireLabel custom label with
    | error e =>
      obtain ⟨v, hne, hv⟩ := requireLabel_error hfirst
      exact ⟨label.1, v, label.2, hne, .inl hv, by simp⟩
    | ok custom₁ =>
      have hkept := requireLabel_ok hfirst
      specialize ih custom₁
      simp only [bind, Except.bind]
      split at ih
      next custom' hrest =>
        intro k v
        rw [ih, hkept, or_assoc, List.mem_cons]
      next e hrest =>
        obtain ⟨k, v, v', hne, hv, hv'⟩ := ih
        refine ⟨k, v, v', hne, ?_, List.mem_cons_of_mem _ hv'⟩
        rwa [hkept, or_assoc, ← List.mem_cons] at hv

theorem FoldState.Collects.start : FoldState.start.Collects [] where
  models := .nil
  regions := .nil
  sites := .nil
  deny := by simp [FoldState.start]
  tiers := by simp [FoldState.start]
  custom := by simp [FoldState.start, Requires]
  strict := by simp [FoldState.start]

theorem requires_append :
    Requires (cs ++ cs') k v ↔ Requires cs k v ∨ Requires cs' k v := by
  simp [Requires, or_and_right, exists_or]

theorem requires_singleton : Requires [c] k v ↔ c.custom.lookup k = some v := by
  simp [Requires]

theorem FoldState.Collects.add (h : s.Collects cs) (hadd : s.add c = .ok s') :
    s'.Collects (cs ++ [c]) := by
  have hlabels := foldlM_requireLabel s.custom (inKeyOrder c.custom)
  unfold FoldState.add at hadd
  cases hcustom : (inKeyOrder c.custom).foldlM requireLabel s.custom with
  | error e =>
    rw [hcustom] at hadd
    cases hadd
  | ok custom =>
    rw [hcustom] at hadd hlabels
    cases hadd
    refine ⟨?_, ?_, ?_, fun x => ?_, fun x => ?_, fun k v => ?_, ?_⟩
    · simpa using h.models.intersectInto c.allowModels
    · simpa using h.regions.intersectInto c.allowRegions
    · simpa using h.sites.intersectInto c.allowSites
    · simp [h.deny, or_and_right, exists_or]
    · simp [h.tiers, or_and_right, exists_or]
    · rw [hlabels, h.custom, mem_inKeyOrder, requires_append, requires_singleton]
    · rw [strictest_eq_deny, h.strict]
      simp [or_and_right, exists_or]

theorem FoldState.Collects.conflict (h : s.Collects cs) (hadd : s.add c = .error e) :
    ∃ k v v', v ≠ v' ∧ Requires (cs ++ [c]) k v ∧ Requires (cs ++ [c]) k v' := by
  have hlabels := foldlM_requireLabel s.custom (inKeyOrder c.custom)
  unfold FoldState.add at hadd
  cases hcustom : (inKeyOrder c.custom).foldlM requireLabel s.custom with
  | error e =>
    rw [hcustom] at hlabels
    obtain ⟨k, v, v', hne, hv, hv'⟩ := hlabels
    rw [h.custom, mem_inKeyOrder] at hv
    rw [mem_inKeyOrder] at hv'
    exact ⟨k, v, v', hne, by rwa [requires_append, requires_singleton],
      by rw [requires_append, requires_singleton]; exact .inr hv'⟩
  | ok custom =>
    rw [hcustom] at hadd
    cases hadd

theorem collects_foldlM (h : s.Collects cs) (more : List CandidateConstraint) :
    (∃ s', more.foldlM FoldState.add s = .ok s' ∧ s'.Collects (cs ++ more)) ∨
      (∃ e, more.foldlM FoldState.add s = .error e) ∧
        ∃ k v v', v ≠ v' ∧ Requires (cs ++ more) k v ∧ Requires (cs ++ more) k v' := by
  induction more generalizing s cs with
  | nil => exact .inl ⟨s, rfl, by rwa [List.append_nil]⟩
  | cons c more ih =>
    rw [List.foldlM_cons]
    cases hadd : s.add c with
    | ok s₁ => simpa [bind, Except.bind] using ih (h.add hadd)
    | error e =>
      obtain ⟨k, v, v', hne, hv, hv'⟩ := h.conflict hadd
      refine .inr ⟨⟨e, rfl⟩, k, v, v', hne, ?_, ?_⟩
      · rw [← List.singleton_append, ← List.append_assoc, requires_append]
        exact .inl hv
      · rw [← List.singleton_append, ← List.append_assoc, requires_append]
        exact .inl hv'

theorem FoldState.Collects.unique (h : s.Collects cs) (h' : s'.Collects cs')
    (hmem : ∀ c, c ∈ cs ↔ c ∈ cs') : s = s' := by
  have hlists : ∀ {α : Type} (f : CandidateConstraint → α) x, x ∈ cs.map f ↔ x ∈ cs'.map f := by
    intro α f x
    simp only [List.mem_map, hmem]
  have hcustom : s.custom = s'.custom := by
    refine Finmap.ext_lookup fun k => Option.ext fun v => ?_
    rw [h.custom, h'.custom, Requires, Requires]
    simp only [hmem]
  have hdeny : s.denyModels = s'.denyModels := by
    ext x
    simp only [h.deny, h'.deny, hmem]
  have htiers : s.tiers = s'.tiers := by
    ext x
    simp only [h.tiers, h'.tiers, hmem]
  have hstrict : s.onEmpty = .deny ↔ s'.onEmpty = .deny := by
    simp only [h.strict, h'.strict, hmem]
  have hempty : s.onEmpty = s'.onEmpty := by
    cases hs : s.onEmpty <;> cases hs' : s'.onEmpty <;> simp_all
  cases s
  cases s'
  simp only at hcustom hdeny htiers hempty
  rw [FoldState.mk.injEq]
  exact ⟨h.models.unique h'.models (hlists _), h.regions.unique h'.regions (hlists _),
    h.sites.unique h'.sites (hlists _), hdeny, htiers, hcustom, hempty⟩

end Collecting

section Narrowing

variable {cs : List CandidateConstraint} {c : CandidateConstraint} {s : FoldState}
  {backend : BackendLabels} {tierRank : String → Option ℕ} {label : Option String}

theorem MeetOf.allowed_of_mem {lists : List (Option (List String))}
    {acc allow : Option (List String)} {test : String → String → Bool} (h : MeetOf lists acc)
    (hallow : allow ∈ lists) (hallowed : allowed acc test label = true) :
    allowed allow test label = true := by
  cases allow with
  | none => rfl
  | some l' =>
    cases acc with
    | none => cases h.none_iff.mp rfl _ hallow
    | some l =>
      cases label with
      | none => cases hallowed
      | some value =>
        simp only [allowed, Option.all_some, Option.any_some, List.any_eq_true] at hallowed ⊢
        obtain ⟨pattern, hpattern, htest⟩ := hallowed
        exact ⟨pattern, (h.mem_iff l rfl pattern).mp hpattern l' hallow, htest⟩

theorem withinTiers_mono {tiers tiers' : List String}
    (hsub : tiers' ⊆ tiers) (h : withinTiers tierRank tiers label = true) :
    withinTiers tierRank tiers' label = true := by
  cases tiers' with
  | nil => rfl
  | cons first rest =>
    have hne : tiers.isEmpty = false := by
      cases tiers with
      | nil => cases List.subset_nil.mp hsub
      | cons => rfl
    simp only [withinTiers, hne, Bool.false_or] at h
    simp only [withinTiers, List.isEmpty_cons, Bool.false_or]
    cases hrank : label.bind tierRank with
    | none =>
      rw [hrank] at h
      cases h
    | some rank =>
      rw [hrank] at h
      simp only [Option.any_some, List.all_eq_true] at h ⊢
      exact fun ceiling hceiling => h ceiling (hsub hceiling)

theorem FoldState.Collects.acceptsAlone (h : s.Collects cs) (hc : c ∈ cs)
    (haccepts : s.folded.accepts backend tierRank = true) :
    c.acceptsAlone backend tierRank = true := by
  have hdeny : c.denyModels ⊆ s.folded.denyModels := by
    intro x hx
    simp only [FoldState.folded, mem_sortedTexts, h.deny]
    exact ⟨c, hc, hx⟩
  have htiers : c.maxCostTier.toList ⊆ s.folded.maxCostTiers := by
    intro x hx
    simp only [FoldState.folded, mem_sortedTexts, h.tiers]
    exact ⟨c, hc, Option.mem_toList.1 hx⟩
  simp only [CandidateConstraint.acceptsAlone, CandidateConstraintExtension.accepts,
    Bool.and_eq_true, Bool.not_eq_true', decide_eq_true_eq] at haccepts ⊢
  obtain ⟨⟨⟨⟨⟨hmodels, hdenied⟩, hregions⟩, hsites⟩, hranks⟩, hlabels⟩ := haccepts
  refine ⟨⟨⟨⟨⟨?_, ?_⟩, ?_⟩, ?_⟩, ?_⟩, fun k hk => ?_⟩
  · exact h.models.allowed_of_mem (List.mem_map_of_mem hc) hmodels
  · cases hmodel : backend "model" with
    | none => rfl
    | some model =>
      rw [hmodel] at hdenied
      simp only [Option.any_some, List.any_eq_false] at hdenied ⊢
      exact fun pattern hpattern => hdenied pattern (hdeny hpattern)
  · exact h.regions.allowed_of_mem (List.mem_map_of_mem hc) hregions
  · exact h.sites.allowed_of_mem (List.mem_map_of_mem hc) hsites
  · exact withinTiers_mono htiers hranks
  · obtain ⟨v, hv⟩ := Finmap.mem_iff.mp (Finmap.mem_keys.mp hk)
    have hlookup : s.custom.lookup k = some v := (h.custom k v).mpr ⟨c, hc, hv⟩
    have hmem : k ∈ s.folded.custom.keys :=
      Finmap.mem_keys.mpr (Finmap.mem_of_lookup_eq_some hlookup)
    rw [hlabels k hmem]
    exact hlookup.trans hv.symm

theorem FoldState.Collects.isEmpty (h : s.Collects cs) (hempty : s.folded.isEmpty = true) :
    ∀ c ∈ cs, c.isEmpty = true := by
  intro c hc
  simp only [CandidateConstraintExtension.isEmpty, FoldState.folded, Bool.and_eq_true,
    Option.isNone_iff_eq_none, List.isEmpty_iff] at hempty
  obtain ⟨⟨⟨⟨⟨hmodels, hdeny⟩, hregions⟩, hsites⟩, htiers⟩, hcustom⟩ := hempty
  replace hcustom : s.custom = ∅ := of_decide_eq_true hcustom
  have hcdeny : c.denyModels = [] := by
    refine List.eq_nil_iff_forall_not_mem.mpr fun x hx => ?_
    have hx' : x ∈ sortedTexts s.denyModels := by
      rw [mem_sortedTexts]
      exact (h.deny x).mpr ⟨c, hc, hx⟩
    simp [hdeny] at hx'
  have hctier : c.maxCostTier = none := by
    refine Option.eq_none_iff_forall_ne_some.mpr fun x hx => ?_
    have hx' : x ∈ sortedTexts s.tiers := by
      rw [mem_sortedTexts]
      exact (h.tiers x).mpr ⟨c, hc, hx⟩
    simp [htiers] at hx'
  have hccustom : c.custom = ∅ := by
    refine Finmap.ext_lookup fun k => ?_
    rw [Finmap.lookup_empty]
    refine Option.eq_none_iff_forall_ne_some.mpr fun v hv => ?_
    have hv' := (h.custom k v).mpr ⟨c, hc, hv⟩
    simp [hcustom] at hv'
  have hcmodels := h.models.none_iff.mp hmodels _ (List.mem_map_of_mem hc)
  have hcregions := h.regions.none_iff.mp hregions _ (List.mem_map_of_mem hc)
  have hcsites := h.sites.none_iff.mp hsites _ (List.mem_map_of_mem hc)
  simp [CandidateConstraint.isEmpty, hcdeny, hctier, hccustom, hcmodels, hcregions, hcsites]

theorem foldCandidateConstraints_cases (cs : List CandidateConstraint) :
    (∃ s : FoldState, s.Collects cs ∧
      foldCandidateConstraints cs = .ok (if s.folded.isEmpty then none else some s.folded)) ∨
      (∃ e, foldCandidateConstraints cs = .error e) ∧
        ∃ k v v', v ≠ v' ∧ Requires cs k v ∧ Requires cs k v' := by
  cases cs with
  | nil =>
    have hempty : FoldState.start.folded.isEmpty = true := by
      simp [FoldState.start, FoldState.folded, CandidateConstraintExtension.isEmpty]
    exact .inl ⟨.start, .start, by rw [if_pos hempty]; rfl⟩
  | cons c cs =>
    have hfold : foldCandidateConstraints (c :: cs) =
        ((c :: cs).foldlM FoldState.add FoldState.start).map fun s =>
          if s.folded.isEmpty then none else some s.folded := by
      rw [foldCandidateConstraints, List.isEmpty_cons, if_neg Bool.false_ne_true]
      cases (c :: cs).foldlM FoldState.add FoldState.start <;> rfl
    rw [hfold]
    rcases collects_foldlM FoldState.Collects.start (c :: cs) with ⟨s, hs, hcollects⟩ |
      ⟨⟨e, he⟩, hconflict⟩
    · rw [hs]
      exact .inl ⟨s, hcollects, rfl⟩
    · rw [he]
      exact .inr ⟨⟨e, rfl⟩, hconflict⟩

/-- What the fold accepts each constraint accepts; nothing is emitted only if nothing was required;
the order does not matter; the strictest answer to an empty set is kept. -/
theorem foldCandidateConstraints_narrows (cs : List CandidateConstraint) :
    (∀ folded, foldCandidateConstraints cs = .ok (some folded) →
      ∀ backend tierRank, folded.accepts backend tierRank = true →
        ∀ c ∈ cs, c.acceptsAlone backend tierRank = true) ∧
      (foldCandidateConstraints cs = .ok none → ∀ c ∈ cs, c.isEmpty = true) ∧
      (∀ cs', cs.Perm cs' →
        (foldCandidateConstraints cs).toOption = (foldCandidateConstraints cs').toOption) ∧
      ∀ folded, foldCandidateConstraints cs = .ok (some folded) →
        (folded.onEmpty = .deny ↔ ∃ c ∈ cs, c.onEmpty = .deny) := by
  rcases foldCandidateConstraints_cases cs with ⟨s, hs, hfold⟩ | ⟨⟨e, he⟩, hconflict⟩
  · have hsome : ∀ folded, foldCandidateConstraints cs = .ok (some folded) → folded = s.folded := by
      intro folded hfolded
      rw [hfold] at hfolded
      split at hfolded
      · cases hfolded
      · cases hfolded
        rfl
    refine ⟨?_, ?_, ?_, ?_⟩
    · intro folded hfolded backend tierRank haccepts c hc
      rw [hsome folded hfolded] at haccepts
      exact hs.acceptsAlone hc haccepts
    · intro hnone
      rw [hfold] at hnone
      split at hnone
      next hempty => exact hs.isEmpty hempty
      · cases hnone
    · intro cs' hperm
      rcases foldCandidateConstraints_cases cs' with ⟨s', hs', hfold'⟩ |
        ⟨-, k, v, v', hne, ⟨c, hc, hv⟩, c', hc', hv'⟩
      · rw [hfold, hfold', hs.unique hs' fun c => hperm.mem_iff]
      · have hk := (hs.custom k v).mpr ⟨c, hperm.mem_iff.mpr hc, hv⟩
        have hk' := (hs.custom k v').mpr ⟨c', hperm.mem_iff.mpr hc', hv'⟩
        exact absurd (Option.some.inj (hk.symm.trans hk')) hne
    · intro folded hfolded
      rw [hsome folded hfolded]
      exact hs.strict
  · refine ⟨?_, ?_, ?_, ?_⟩
    · intro folded hfolded
      rw [he] at hfolded
      cases hfolded
    · intro hnone
      rw [he] at hnone
      cases hnone
    · intro cs' hperm
      rcases foldCandidateConstraints_cases cs' with ⟨s', hs', -⟩ | ⟨⟨e', he'⟩, -⟩
      · obtain ⟨k, v, v', hne, ⟨c, hc, hv⟩, c', hc', hv'⟩ := hconflict
        have hk := (hs'.custom k v).mpr ⟨c, hperm.mem_iff.mp hc, hv⟩
        have hk' := (hs'.custom k v').mpr ⟨c', hperm.mem_iff.mp hc', hv'⟩
        exact absurd (Option.some.inj (hk.symm.trans hk')) hne
      · rw [he, he']
        rfl
    · intro folded hfolded
      rw [he] at hfolded
      cases hfolded

def sampleConstraints : List CandidateConstraint :=
  [⟨some ["v/*"], [], some ["eu"], none, none, ∅, .fallback⟩,
    ⟨none, ["o"], some ["eu"], none, some "low", ∅, .deny⟩]

def sampleFolded : CandidateConstraintExtension :=
  ⟨some ["v/*"], ["o"], some ["eu"], none, ["low"], ∅, .deny⟩

def sampleBackend : BackendLabels
  | "model" => some "v/a"
  | "region" => some "eu"
  | "cost_tier" => some "low"
  | _ => none

theorem foldCandidateConstraints_narrows_sample :
    foldCandidateConstraints sampleConstraints = .ok (some sampleFolded) ∧
      sampleFolded.accepts sampleBackend (fun _ => some 1) = true ∧
      (∀ c ∈ sampleConstraints, c.acceptsAlone sampleBackend (fun _ => some 1) = true) ∧
      (foldCandidateConstraints sampleConstraints).toOption =
        (foldCandidateConstraints sampleConstraints.reverse).toOption ∧
      sampleFolded.onEmpty = .deny := by
  have hfold : foldCandidateConstraints sampleConstraints = .ok (some sampleFolded) := by
    simp [foldCandidateConstraints, sampleConstraints, sampleFolded, FoldState.add,
      FoldState.start, FoldState.folded, inKeyOrder, intersectInto, strictest,
      CandidateConstraintExtension.isEmpty, pure, Except.pure, bind, Except.bind]
  have haccepts : sampleFolded.accepts sampleBackend (fun _ => some 1) = true := by
    simp [CandidateConstraintExtension.accepts, sampleFolded, sampleBackend, allowed, withinTiers,
      globMatch, encode, globLoop, starByte, String.utf8EncodeChar]
  obtain ⟨hnarrow, -, horder, hstrict⟩ := foldCandidateConstraints_narrows sampleConstraints
  refine ⟨hfold, haccepts, hnarrow _ hfold _ _ haccepts, ?_, ?_⟩
  · exact horder _ (List.reverse_perm _).symm
  · exact (hstrict _ hfold).mpr ⟨_, List.mem_cons_of_mem _ List.mem_cons_self, rfl⟩

end Narrowing

end PraxisPolicy
