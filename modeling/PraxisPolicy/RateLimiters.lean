import PraxisPolicy.RouteDispatch

/-!
# The limiters of a stage

A step with an override runs its own instance, any other the base limiter of its plugin, and a base
limiter runs once.  A limiter that is not there is an error.
-/

namespace PraxisPolicy

open HashMaps JsonValues

namespace RateLimitStepRef

def declaresStage (config : PolicyConfig) (hookName : String) (ref : RateLimitStepRef) : Bool :=
  (config.plugins.find? fun plugin => plugin.name == ref.step.name).any fun plugin =>
    plugin.hooks.any (· == hookName)

def limiter (snapshot : RuntimeSnapshot) (entries : List HookEntry) (matched : Option MatchedRoute)
    (hookName : String) (ref : RateLimitStepRef) : Option HookEntry :=
  if ref.step.configOverride.isSome then
    (snapshot.rateLimitOverrides.lookup (ref.site matched)).bind (·.entryFor hookName)
  else entries.find? fun e => e.pluginName == ref.step.name

end RateLimitStepRef

/-- `seen` were mentioned before. -/
def onceEach (seen : List String) : List RateLimitStepRef → List RateLimitStepRef
  | [] => []
  | ref :: refs =>
    if ref.step.configOverride.isSome then ref :: onceEach seen refs
    else if ref.step.name ∈ seen then onceEach seen refs
    else ref :: onceEach (ref.step.name :: seen) refs

structure UniqueIds (snapshot : RuntimeSnapshot) (entries : List HookEntry) (hookName : String) :
    Prop where
  overrides : ∀ site instance' own, snapshot.rateLimitOverrides.lookup site = some instance' →
    instance'.entryFor hookName = some own → ∀ base ∈ entries, own.pluginId ≠ base.pluginId
  plugins : ∀ a ∈ entries, ∀ b ∈ entries, a.pluginId = b.pluginId → a.pluginName = b.pluginName

theorem UniqueIds.sameId_iff {snapshot : RuntimeSnapshot} {entries : List HookEntry}
    {hookName : String} (hids : UniqueIds snapshot entries hookName) {name name' : String}
    {e base : HookEntry} (he : entries.find? (fun e => e.pluginName == name) = some e)
    (hbase : entries.find? (fun e => e.pluginName == name') = some base) :
    e.pluginId = base.pluginId ↔ name' = name := by
  constructor
  · intro hid
    have hname := hids.plugins e (List.mem_of_find?_eq_some he) base
      (List.mem_of_find?_eq_some hbase) hid
    have hfirst : e.pluginName = name := by simpa using List.find?_some he
    have hsecond : base.pluginName = name' := by simpa using List.find?_some hbase
    rw [← hsecond, ← hname, hfirst]
  · rintro rfl
    rw [Option.some.inj (he.symm.trans hbase)]

section Entries

variable (snapshot : RuntimeSnapshot) (config : PolicyConfig) (entries : List HookEntry)
  (matched : Option MatchedRoute) (hookName : String)

/-- The limiters found are those of the steps of the stage, or one of these has none. -/
def Complete (seen : List String) (refs : List RateLimitStepRef) (selected : List HookEntry)
    (result : Except RouteResolutionError (List HookEntry)) : Prop :=
  (∃ found, result = .ok (selected ++ found) ∧
    List.Forall₂ (fun ref e => ref.limiter snapshot entries matched hookName = some e)
      (onceEach seen (refs.filter fun ref => ref.declaresStage config hookName)) found) ∨
  (result = .error .rateLimitUnavailable ∧ ∃ ref ∈ refs,
    ref.declaresStage config hookName = true ∧
      ref.limiter snapshot entries matched hookName = none)

variable {snapshot config entries matched hookName} {selected : List HookEntry} {seen : List String}
  {ref : RateLimitStepRef} {refs : List RateLimitStepRef}
  {result : Except RouteResolutionError (List HookEntry)}

theorem Complete.skip (h : Complete snapshot config entries matched hookName seen refs selected result)
    (hskip : onceEach seen ((ref :: refs).filter fun ref => ref.declaresStage config hookName) =
      onceEach seen (refs.filter fun ref => ref.declaresStage config hookName)) :
    Complete snapshot config entries matched hookName seen (ref :: refs) selected result := by
  rcases h with ⟨found, hresult, hfound⟩ | ⟨hresult, other, hother, hmissing⟩
  · exact .inl ⟨found, hresult, hskip ▸ hfound⟩
  · exact .inr ⟨hresult, other, List.mem_cons_of_mem _ hother, hmissing⟩

theorem Complete.found {seen' : List String} {e : HookEntry}
    (h : Complete snapshot config entries matched hookName seen' refs (selected ++ [e]) result)
    (he : ref.limiter snapshot entries matched hookName = some e)
    (hnext : onceEach seen ((ref :: refs).filter fun ref => ref.declaresStage config hookName) =
      ref :: onceEach seen' (refs.filter fun ref => ref.declaresStage config hookName)) :
    Complete snapshot config entries matched hookName seen (ref :: refs) selected result := by
  rcases h with ⟨found, hresult, hfound⟩ | ⟨hresult, other, hother, hmissing⟩
  · refine .inl ⟨e :: found, by rw [hresult, List.append_assoc, List.singleton_append], ?_⟩
    exact hnext ▸ .cons he hfound
  · exact .inr ⟨hresult, other, List.mem_cons_of_mem _ hother, hmissing⟩

theorem complete_rateLimitEntries (hids : UniqueIds snapshot entries hookName)
    (hseen : ∀ name base, entries.find? (fun e => e.pluginName == name) = some base →
      ((selected.any fun done => done.pluginId == base.pluginId) = true ↔ name ∈ seen)) :
    Complete snapshot config entries matched hookName seen refs selected
      (rateLimitEntries snapshot config entries matched hookName selected refs) := by
  induction refs generalizing selected seen with
  | nil => exact .inl ⟨[], by rw [rateLimitEntries, List.append_nil], .nil⟩
  | cons ref refs ih =>
    rw [rateLimitEntries]
    by_cases hstage : ref.declaresStage config hookName = true
    · have hcons := List.filter_cons_of_pos (p := fun ref : RateLimitStepRef =>
        ref.declaresStage config hookName) (l := refs) hstage
      rw [if_neg (by simpa [RateLimitStepRef.declaresStage] using hstage)]
      cases hlimiter : ref.limiter snapshot entries matched hookName with
      | none =>
        have hmissing := hlimiter
        rw [RateLimitStepRef.limiter] at hmissing
        refine .inr ⟨?_, ref, List.mem_cons_self, hstage, hlimiter⟩
        split_ifs at hmissing ⊢ <;> rw [hmissing]
      | some e =>
        have hfound := hlimiter
        rw [RateLimitStepRef.limiter] at hfound
        split_ifs at hfound ⊢ with hoverride
        · rw [hfound]
          obtain ⟨instance', hsite, hown⟩ := Option.bind_eq_some_iff.1 hfound
          refine (ih fun name base hbase => ?_).found hlimiter
            (by rw [hcons, onceEach, if_pos hoverride])
          rw [List.any_append, ← hseen name base hbase]
          simp [hids.overrides _ instance' e hsite hown base (List.mem_of_find?_eq_some hbase)]
        · rw [hfound]
          dsimp only
          split_ifs with hdone
          · refine (ih hseen).skip ?_
            rw [hcons, onceEach, if_neg hoverride, if_pos ((hseen _ e hfound).1 hdone)]
          · have hnew : ref.step.name ∉ seen := fun h => hdone ((hseen _ e hfound).2 h)
            refine (ih fun name base hbase => ?_).found hlimiter
              (by rw [hcons, onceEach, if_neg hoverride, if_neg hnew])
            rw [List.any_append, Bool.or_eq_true, hseen name base hbase, List.mem_cons, or_comm]
            refine or_congr_left ?_
            rw [List.any_cons, List.any_nil, Bool.or_false, beq_iff_eq]
            exact hids.sameId_iff hfound hbase
    · rw [if_pos (by simpa [RateLimitStepRef.declaresStage] using hstage)]
      exact (ih hseen).skip (by rw [List.filter_cons_of_neg hstage])

theorem exists_mem_of_onceEach {found : List HookEntry} (href : ref ∈ refs)
    (hfound : List.Forall₂ (fun ref e => ref.limiter snapshot entries matched hookName = some e)
      (onceEach seen refs) found)
    (hseen : ref.step.configOverride.isSome = true ∨ ref.step.name ∉ seen) :
    ∃ e ∈ found, ref.limiter snapshot entries matched hookName = some e := by
  induction refs generalizing seen found with
  | nil => cases href
  | cons first refs ih =>
    rw [onceEach] at hfound
    split_ifs at hfound with hown hmem
    · obtain ⟨e, rest, he, hrest, rfl⟩ := List.forall₂_cons_left_iff.1 hfound
      rcases List.mem_cons.1 href with rfl | href
      · exact ⟨e, List.mem_cons_self, he⟩
      · obtain ⟨e', he', hlimiter⟩ := ih href hrest hseen
        exact ⟨e', List.mem_cons_of_mem _ he', hlimiter⟩
    · rcases List.mem_cons.1 href with rfl | href
      · exact absurd hseen (not_or.2 ⟨hown, not_not.2 hmem⟩)
      · exact ih href hfound hseen
    · obtain ⟨e, rest, he, hrest, rfl⟩ := List.forall₂_cons_left_iff.1 hfound
      by_cases hsame : ref.step.configOverride.isSome = true ∨
          ref.step.name ∉ first.step.name :: seen
      · rcases List.mem_cons.1 href with rfl | href
        · exact ⟨e, List.mem_cons_self, he⟩
        · obtain ⟨e', he', hlimiter⟩ := ih href hrest hsame
          exact ⟨e', List.mem_cons_of_mem _ he', hlimiter⟩
      · obtain ⟨hbase, hname⟩ := not_or.1 hsame
        have hfirst : ref.step.name = first.step.name :=
          (List.mem_cons.1 (not_not.1 hname)).resolve_right (hseen.resolve_left hbase)
        refine ⟨e, List.mem_cons_self, ?_⟩
        rw [← he, RateLimitStepRef.limiter, RateLimitStepRef.limiter, if_neg hbase, if_neg hown,
          hfirst]

/-- Every step of the stage has its limiter in the list, in order and each base limiter once, and
nothing else is there; when one is missing there is no list. -/
theorem rateLimitEntries_complete (snapshot : RuntimeSnapshot) (config : PolicyConfig)
    (entries : List HookEntry) (matched : Option MatchedRoute) (hookName : String)
    (refs : List RateLimitStepRef) (hids : UniqueIds snapshot entries hookName) :
    (∃ found, rateLimitEntries snapshot config entries matched hookName [] refs = .ok found ∧
      List.Forall₂ (fun ref e => ref.limiter snapshot entries matched hookName = some e)
        (onceEach [] (refs.filter fun ref => ref.declaresStage config hookName)) found ∧
      ∀ ref ∈ refs, ref.declaresStage config hookName = true →
        ∃ e ∈ found, ref.limiter snapshot entries matched hookName = some e) ∨
    (rateLimitEntries snapshot config entries matched hookName [] refs =
        .error .rateLimitUnavailable ∧
      ∃ ref ∈ refs, ref.declaresStage config hookName = true ∧
        ref.limiter snapshot entries matched hookName = none) := by
  have hloop : Complete snapshot config entries matched hookName [] refs []
      (rateLimitEntries snapshot config entries matched hookName [] refs) :=
    complete_rateLimitEntries hids fun name base _ => by simp
  rcases hloop with ⟨found, hok, hfound⟩ | hmissing
  · refine .inl ⟨found, hok, hfound, fun ref href hstage =>
      exists_mem_of_onceEach (List.mem_filter.2 ⟨href, hstage⟩) hfound (.inr List.not_mem_nil)⟩
  · exact .inr hmissing

end Entries

def quotaSnapshot : RuntimeSnapshot :=
  ⟨∅, none, 0, ∅, true, false,
    (∅ : HashMap _ _).insert ⟨1, "global"⟩ ⟨[(hookRatelimitPreIdentity, ⟨1, "quota", 1⟩)]⟩, false⟩

def quotaStep (index : ℕ) (override : Option Json) : RateLimitStepRef :=
  ⟨.global, index, "quota", override⟩

theorem uniqueIds_quota :
    UniqueIds quotaSnapshot [⟨0, "quota", 0⟩] hookRatelimitPreIdentity := by
  constructor
  · intro site instance' own hsite hown base hbase
    rw [quotaSnapshot, lookup_insert_eq] at hsite
    split_ifs at hsite
    · cases hsite
      cases hown
      cases List.mem_singleton.1 hbase
      decide
    · cases hsite
  · intro a ha b hb _
    rw [List.mem_singleton.1 ha, List.mem_singleton.1 hb]

def quotaLimiters : Except RouteResolutionError (List HookEntry) :=
  rateLimitEntries quotaSnapshot
    ⟨.default, [⟨"quota", [hookRatelimitPreIdentity]⟩], ∅, [], .default⟩ [⟨0, "quota", 0⟩] none
    hookRatelimitPreIdentity [] [quotaStep 0 none, quotaStep 1 (some .null)]

theorem override_not_dropped :
    (∃ found, quotaLimiters = .ok found ∧ ∃ e ∈ found,
      (quotaStep 1 (some .null)).limiter quotaSnapshot [⟨0, "quota", 0⟩] none
        hookRatelimitPreIdentity = some e) ∨
    quotaLimiters = .error .rateLimitUnavailable := by
  rcases rateLimitEntries_complete quotaSnapshot _ _ none _ _ uniqueIds_quota with
    ⟨found, hok, -, hall⟩ | ⟨herror, -⟩
  · exact .inl ⟨found, hok, hall _ (List.mem_cons_of_mem _ List.mem_cons_self) (by decide)⟩
  · exact .inr herror

end PraxisPolicy
