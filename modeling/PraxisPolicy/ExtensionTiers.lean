import PraxisPolicy.ExtensionMerge
import PraxisPolicy.StepRuns

/-!
# The mutability tiers along a run

`TiersKept` relates the extensions at two points of a request.  Each serial plugin, whatever it
returns, takes the extensions to related ones.
-/

namespace PraxisPolicy

open HashMaps JsonValues TextScanning StepRuns

section Chains

variable {Detail : Type} [DecidableEq Detail]

def DelegationHop.forgetCache (hop : DelegationHop Detail) : DelegationHop Detail :=
  { hop with fromCache := false }

theorem DelegationHop.sameGrant_iff (before after : DelegationHop Detail) :
    before.sameGrant after = true ↔ before.forgetCache = after.forgetCache := by
  cases before
  cases after
  simp only [sameGrant, forgetCache, Bool.and_eq_true, beq_iff_eq, mk.injEq]
  tauto

theorem chainExtends_iff (canonical returned : List (DelegationHop Detail)) :
    chainExtends canonical returned = true ↔
      canonical.map DelegationHop.forgetCache <+: returned.map DelegationHop.forgetCache := by
  induction canonical generalizing returned with
  | nil => simp [chainExtends]
  | cons hop canonical ih =>
    cases returned with
    | nil => simp [chainExtends]
    | cons hop' returned =>
      have hrest := ih returned
      simp only [chainExtends, Bool.and_eq_true, decide_eq_true_eq, List.length_cons,
        Nat.add_le_add_iff_right, List.zip_cons_cons, List.all_cons, List.map_cons,
        List.cons_prefix_cons, DelegationHop.sameGrant_iff] at hrest ⊢
      rw [← hrest]
      tauto

end Chains

section Relation

def SecurityExtension.withoutLabels (security : SecurityExtension) : SecurityExtension :=
  { security with labels := ∅ }

def HttpExtension.withoutHeaders (http : HttpExtension) : HttpExtension :=
  { http with requestHeaders := ∅, responseHeaders := ∅ }

variable [Contents]

namespace Extensions

def securityOf (e : Extensions) : SecurityExtension := e.security.getD .default

def httpOf (e : Extensions) : HttpExtension := e.http.getD .default

def delegationOf (e : Extensions) : DelegationExtension Contents.detail :=
  e.delegation.getD .default

end Extensions

/-- What later extensions owe to earlier ones. -/
structure TiersKept (e e' : Extensions) : Prop where
  labels : e.securityOf.labels ⊆ e'.securityOf.labels
  identity : e'.securityOf.withoutLabels = e.securityOf.withoutLabels
  requestLine : e'.httpOf.withoutHeaders = e.httpOf.withoutHeaders
  secrets : ∀ name, e.httpOf.isSecret name = true →
    e'.httpOf.requestHeaders.lookup name = e.httpOf.requestHeaders.lookup name
  immutable : e'.immutable = e.immutable
  chain : e.delegationOf.chain.map DelegationHop.forgetCache <+:
    e'.delegationOf.chain.map DelegationHop.forgetCache
  origin : ∀ id, e.delegationOf.originSubjectId = some id →
    e'.delegationOf.originSubjectId = some id
  depth : e.delegationOf.depth = chainDepth e.delegationOf.chain →
    e'.delegationOf.depth = chainDepth e'.delegationOf.chain

namespace TiersKept

theorem refl (e : Extensions) : TiersKept e e :=
  ⟨subset_rfl, rfl, rfl, fun _ _ => rfl, rfl, List.prefix_rfl, fun _ h => h, fun h => h⟩

theorem isSecret_eq {e e' : Extensions} (h : TiersKept e e') (name : String) :
    e'.httpOf.isSecret name = e.httpOf.isSecret name := by
  have hmarkers : e'.httpOf.withoutHeaders.isSecret name = e.httpOf.withoutHeaders.isSecret name :=
    by rw [h.requestLine]
  exact hmarkers

theorem trans {e₁ e₂ e₃ : Extensions} (h : TiersKept e₁ e₂) (h' : TiersKept e₂ e₃) :
    TiersKept e₁ e₃ where
  labels := h.labels.trans h'.labels
  identity := h'.identity.trans h.identity
  requestLine := h'.requestLine.trans h.requestLine
  secrets name hname :=
    (h'.secrets name ((h.isSecret_eq name).trans hname)).trans (h.secrets name hname)
  immutable := h'.immutable.trans h.immutable
  chain := h.chain.trans h'.chain
  origin id hid := h'.origin id (h.origin id hid)
  depth hd := h'.depth (h.depth hd)

end TiersKept

end Relation

section Steps

theorem mergeSecurity_getD (canonical owned : Option SecurityExtension) (token : Bool) :
    ∃ added, (mergeSecurity canonical owned token).getD .default =
      { canonical.getD .default with labels := (canonical.getD .default).labels ∪ added } := by
  cases owned with
  | none => exact ⟨∅, by simp [mergeSecurity]⟩
  | some o =>
    cases token with
    | false => exact ⟨∅, by simp [mergeSecurity]⟩
    | true => exact ⟨o.labels, rfl⟩

variable [Contents]

theorem delegationOf_mergeOwned (e : Extensions) (owned : OwnedExtensions) :
    (e.mergeOwned owned).delegationOf = e.delegationOf ∨
    ∃ o, owned.delegation = some o ∧ (e.mergeOwned owned).delegationOf.chain = o.chain ∧
      chainExtends e.delegationOf.chain (e.mergeOwned owned).delegationOf.chain = true ∧
      (e.mergeOwned owned).delegationOf.depth =
        chainDepth (e.mergeOwned owned).delegationOf.chain ∧
      ∀ id, e.delegationOf.originSubjectId = some id →
        (e.mergeOwned owned).delegationOf.originSubjectId = some id := by
  have hmerged : (e.mergeOwned owned).delegationOf =
      (mergeDelegation e.delegation owned.delegation owned.delegationWriteToken).getD .default := rfl
  rw [hmerged]
  unfold Extensions.delegationOf
  cases owned.delegation with
  | none => exact .inl rfl
  | some o =>
    cases owned.delegationWriteToken with
    | false => exact .inl rfl
    | true =>
      cases e.delegation with
      | none =>
        refine .inr ⟨o, rfl, rfl, ?_, rfl, fun id hid => ?_⟩
        · exact (chainExtends_iff _ _).mpr List.nil_prefix
        · simp [DelegationExtension.default] at hid
      | some c =>
        by_cases hext : chainExtends c.chain o.chain = true
        · have hmerge : mergeDelegation (some c) (some o) true = some {
              chain := o.chain
              depth := chainDepth o.chain
              delegated := !o.chain.isEmpty
              originSubjectId := c.originSubjectId.or o.originSubjectId
              actorSubjectId := o.actorSubjectId
              ageSeconds := o.ageSeconds } := by
            simp [mergeDelegation, hext]
          rw [hmerge]
          refine .inr ⟨o, rfl, rfl, hext, rfl, fun id hid => ?_⟩
          have horigin : c.originSubjectId = some id := hid
          simp [horigin]
        · exact .inl (by simp [mergeDelegation, hext])

theorem tiersKept_mergeOwned (e : Extensions) (owned : OwnedExtensions) :
    TiersKept e (e.mergeOwned owned) := by
  obtain ⟨added, hsecurity⟩ := mergeSecurity_getD e.security owned.security owned.labelsWriteToken
  have hsec : (e.mergeOwned owned).securityOf =
      { e.securityOf with labels := e.securityOf.labels ∪ added } := hsecurity
  have hhttp : (e.mergeOwned owned).httpOf = e.httpOf ∨
      ∃ o, (e.mergeOwned owned).httpOf = e.httpOf.mergeHeaders o := by
    unfold Extensions.httpOf Extensions.mergeOwned
    cases owned.http with
    | none => exact .inl rfl
    | some o =>
      cases owned.httpWriteToken with
      | false => exact .inl rfl
      | true => exact .inr ⟨o, rfl⟩
  have hline : (e.mergeOwned owned).httpOf.withoutHeaders = e.httpOf.withoutHeaders := by
    rcases hhttp with h | ⟨o, h⟩ <;> rw [h]
    rfl
  have hsecrets : ∀ name, e.httpOf.isSecret name = true →
      (e.mergeOwned owned).httpOf.requestHeaders.lookup name =
        e.httpOf.requestHeaders.lookup name := by
    intro name hname
    rcases hhttp with h | ⟨o, h⟩ <;> rw [h]
    have hmarkers : e.httpOf.secretMarkers ≠ ∅ := by
      intro hempty
      simp [HttpExtension.isSecret, hempty] at hname
    simp only [HttpExtension.mergeHeaders, if_neg hmarkers, lookup_extend, lookup_retain, hname,
      Bool.not_true, Bool.false_eq_true, if_true, if_false, Option.or_none]
  have hdelegation := delegationOf_mergeOwned e owned
  constructor
  case labels =>
    rw [hsec]
    exact Finset.subset_union_left
  case identity =>
    rw [hsec]
    rfl
  case requestLine => exact hline
  case secrets => exact hsecrets
  case immutable => rfl
  case chain =>
    rcases hdelegation with h | ⟨o, -, -, hext, -⟩
    · rw [h]
    · exact (chainExtends_iff _ _).mp hext
  case origin =>
    rcases hdelegation with h | ⟨o, -, -, -, -, horigin⟩
    · exact fun id hid => h ▸ hid
    · exact horigin
  case depth =>
    rcases hdelegation with h | ⟨o, -, -, -, hdepth, -⟩
    · exact fun hd => h ▸ hd
    · exact fun _ => hdepth

/-- What it may do, and the extensions it returned, if any. -/
structure PluginStep where
  caps : Finset String
  returned : Option OwnedExtensions

def pluginStep (e : Extensions) (s : PluginStep) : Extensions :=
  match s.returned with
  | some owned => e.applyModification s.caps owned
  | none => e

theorem tiersKept_pluginStep (e : Extensions) (s : PluginStep) : TiersKept e (pluginStep e s) := by
  unfold pluginStep
  split
  · unfold Extensions.applyModification
    split
    · exact tiersKept_mergeOwned e _
    · exact .refl e
  · exact .refl e

theorem candidateConstraint_pluginStep (e : Extensions) {s : PluginStep}
    (h : "write_candidate_constraint" ∉ s.caps) :
    (pluginStep e s).candidateConstraint = e.candidateConstraint := by
  unfold pluginStep
  split
  · rename_i owned _
    unfold Extensions.applyModification
    split
    · rename_i haccepts
      have hok : e.candidateConstraintWriteOk owned s.caps = true := by
        simp only [Extensions.accepts, Bool.and_eq_true] at haccepts
        exact haccepts.2
      have hsame : owned.candidateConstraint = e.candidateConstraint := by
        simpa [Extensions.candidateConstraintWriteOk, h] using hok
      exact hsame
    · rfl
  · rfl

end Steps

section Runs

variable [Contents]

/-- The tiers are kept between any two points of a run, and a change of the routing constraint needs
a plugin that holds its write capability. -/
theorem tiers_kept_along_run (e : Extensions) (before after : List PluginStep) :
    TiersKept (run pluginStep e before) (run pluginStep e (before ++ after)) ∧
    ((∀ s ∈ after, "write_candidate_constraint" ∉ s.caps) →
      (run pluginStep e (before ++ after)).candidateConstraint =
        (run pluginStep e before).candidateConstraint) := by
  rw [run_append]
  constructor
  · exact rel_run TiersKept.refl (fun _ _ _ => TiersKept.trans) tiersKept_pluginStep _ after
  · intro hafter
    generalize run pluginStep e before = e
    exact invariant_of_mem (I := fun e' => e'.candidateConstraint = e.candidateConstraint)
      (fun e' s h hs => (candidateConstraint_pluginStep e' (hafter s hs)).trans h) rfl

end Runs

section Cases

local instance plainContents : Contents := Contents.plain

def exchangeHop (fromCache : Bool) : DelegationHop Contents.plain.detail :=
  ⟨"alice", some .user, some "billing", ["read"], [], ⟨0, 0⟩, some 300, some .tokenExchange,
    fromCache⟩

def delegatedAlong (chain : List (DelegationHop Contents.plain.detail)) : Extensions :=
  { Extensions.default with
    delegation := some ⟨chain, chain.length, some "alice", none, true, .ofInt 0⟩ }

def flagFlipStep : PluginStep :=
  ⟨{"append_delegation"}, some (delegatedAlong [exchangeHop true]).cowCopy⟩

/-- The flag of a recorded hop is not compared, so the chain is replaced by one it is no prefix of.
-/
theorem pluginStep_rewrites_cacheFlag :
    ¬ (delegatedAlong [exchangeHop false]).delegationOf.chain <+:
      (run pluginStep (delegatedAlong [exchangeHop false]) [flagFlipStep]).delegationOf.chain := by
  decide

def labelStep : PluginStep where
  caps := {"append_labels"}
  returned := some { (delegatedAlong [exchangeHop false]).cowCopy with
    security := some { SecurityExtension.default with labels := {"PII"} }
    custom := some ∅ }

theorem tiers_kept_along_run_labelStep :
    let e := delegatedAlong [exchangeHop false]
    let e' := run pluginStep e ([] ++ [labelStep])
    "PII" ∈ e'.securityOf.labels ∧ TiersKept e e' ∧
      e'.candidateConstraint = e.candidateConstraint := by
  obtain ⟨htiers, hconstraint⟩ :=
    tiers_kept_along_run (delegatedAlong [exchangeHop false]) [] [labelStep]
  exact ⟨by decide, htiers, hconstraint (by decide)⟩

end Cases

end PraxisPolicy
