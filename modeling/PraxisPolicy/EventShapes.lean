import PraxisPolicy.OcsfEvents

/-!
# The shape of an event

Whatever is in the message, the extensions and the log, an event has no repeated keys and none of
the members a signature adds.
-/

namespace PraxisPolicy

open HashMaps JsonValues TextScanning
open Json (KeyedIfSome)

@[simp] theorem keyed_jsonNat (n : ℕ) : (jsonNat n).Keyed := .number _

@[simp] theorem keyed_jsonOption {α : Type} {toJson : α → Json} {value : Option α}
    (h : ∀ a, (toJson a).Keyed) : (jsonOption toJson value).Keyed := by
  cases value with
  | none => exact .null
  | some a => exact h a

@[simp] theorem keyed_jsonStrings (texts : List String) : (jsonStrings texts).Keyed := by
  simp [jsonStrings]

theorem keyed_jsonMap (m : HashMap String KeyedJson) : (jsonMap m).Keyed := by
  refine .object ?_ ?_
  · have hkeys : ∀ keys : List String,
        ((keys.filterMap fun key => (m.lookup key).map fun v => (key, v.1)).map Prod.fst).Sublist
          keys := by
      intro keys
      induction keys with
      | nil => exact .refl _
      | cons key keys ih =>
        cases h : m.lookup key with
        | none => simpa [h] using ih.trans (List.sublist_cons_self key keys)
        | some v => simpa [h] using ih.cons_cons key
    exact (Finset.sort_nodup _ _).sublist (hkeys _)
  · intro e he
    obtain ⟨key, -, hkey⟩ := List.mem_filterMap.1 he
    obtain ⟨v, -, rfl⟩ := Option.map_eq_some_iff.1 hkey
    exact v.2

theorem keyed_nil : Json.Keyed (.object []) := .object (by simp) (by simp)

theorem ToolMetadata.keyed (tool : ToolMetadata) : tool.toJson.Keyed := by
  refine keyed_nil.insertSomes ?_
  simp only [List.forall_mem_cons]
  exact ⟨(Json.Keyed.string _).ifSome, .map .string _, .map .string _, .map Subtype.prop _,
    .map Subtype.prop _, .map .string _, .map .string _, (keyed_jsonMap _).ifSome, by simp⟩

theorem ResourceMetadata.keyed (resource : ResourceMetadata) : resource.toJson.Keyed := by
  refine keyed_nil.insertSomes ?_
  simp only [List.forall_mem_cons]
  exact ⟨(Json.Keyed.string _).ifSome, .map .string _, .map .string _, .map .string _,
    .map .string _, (keyed_jsonMap _).ifSome, by simp⟩

theorem PromptMetadata.keyed (prompt : PromptMetadata) : prompt.toJson.Keyed := by
  have harguments : ∀ vs : List KeyedJson, Json.Keyed (.array (vs.map Subtype.val)) := by
    intro vs
    refine .array fun v hv => ?_
    obtain ⟨w, -, rfl⟩ := List.mem_map.1 hv
    exact w.2
  refine keyed_nil.insertSomes ?_
  simp only [List.forall_mem_cons]
  exact ⟨(Json.Keyed.string _).ifSome, .map .string _, .map harguments _, .map .string _,
    (keyed_jsonMap _).ifSome, by simp⟩

theorem MCPExtension.keyed (mcp : MCPExtension) : mcp.toJson.Keyed := by
  refine keyed_nil.insertSomes ?_
  simp only [List.forall_mem_cons]
  exact ⟨.map ToolMetadata.keyed _, .map ResourceMetadata.keyed _, .map PromptMetadata.keyed _,
    by simp⟩

theorem keyed_attachCapabilityCoords (content : List ContentPart) :
    ∀ m ∈ attachCapabilityCoords content, m.2.Keyed := by
  fun_induction attachCapabilityCoords content with
  | case1 => simp
  | case2 => simp
  | case3 => simp
  | case4 _ _ _ _ ih => exact ih

theorem keyed_violationDetail (violation : PluginViolation) :
    (violationDetail violation).Keyed := by
  refine Json.Keyed.insertSomes (by simp) ?_
  simp only [List.forall_mem_cons]
  exact ⟨.map .string _, .ite .none (keyed_jsonMap _).ifSome, by simp⟩

theorem keyed_stepJson (step : DecisionStep) : (stepJson step).Keyed := by
  refine Json.Keyed.insertSomes (by simp) ?_
  simp only [List.forall_mem_cons]
  refine ⟨?_, ?_, by simp⟩
  · split
    · exact (Json.Keyed.string _).ifSome
    · exact .none
  · split
    · exact (keyed_violationDetail _).ifSome
    · exact (keyed_violationDetail _).ifSome
    · exact .none

theorem keyed_verdict (log : DecisionLog) : log.ruling.verdict.Keyed := by
  unfold DecisionLog.ruling
  split
  · simp
  · split <;> exact .string _
  · exact .string _

theorem keyed_rulingMembers (log : DecisionLog) :
    ∀ e ∈ rulingMembers log, KeyedIfSome e.2 := by
  simp only [rulingMembers, List.forall_mem_cons]
  exact ⟨.map (fun _ => keyed_jsonNat _) _, .map (fun _ => .string _) _,
    .map (fun _ => .string _) _, (keyed_jsonNat _).ifSome, (Json.Keyed.string _).ifSome,
    (keyed_jsonNat _).ifSome, (Json.Keyed.string _).ifSome, by simp⟩

theorem keyed_aidMembers (log : DecisionLog) : ∀ e ∈ aidMembers log, KeyedIfSome e.2 := by
  have hdecision : (decisionJson log).Keyed := by
    refine Json.Keyed.insertSomes (by simp [keyed_verdict, keyed_stepJson]) ?_
    simp only [List.forall_mem_cons]
    exact ⟨.ite (Json.Keyed.bool _).ifSome .none, by simp⟩
  have hspan : ∀ span : Span, Json.Keyed (.object [("trace_id", .string span.traceId),
      ("span_id", .string span.spanId),
      ("parent_span_id", jsonOption .string span.parentSpanId)]) := by
    simp
  simp only [aidMembers, List.forall_mem_cons]
  exact ⟨hdecision.ifSome, .map hspan _, .ite .none (keyed_jsonStrings _).ifSome,
    .map (fun _ => by simp) _, .map (fun _ => by simp) _,
    by simp⟩

section Events

variable [Contents]

theorem keyed_baseMembers [SlotRecords] (activity : Activity) (ext : Extensions)
    (config : OcsfAuditConfig) (nowRfc3339 : String) :
    Json.Keyed (.object (baseMembers activity (eventMetadata ext config) nowRfc3339)) := by
  have hmetadata : Json.Keyed (.object (eventMetadata ext config)) := by
    refine Json.Keyed.insertSomes (by simp) ?_
    simp only [List.forall_mem_cons]
    exact ⟨.map .string _, by simp⟩
  refine .object (by simp [baseMembers]) ?_
  simpa [baseMembers] using hmetadata

theorem keyed_requestMembers [SlotRecords] [AuditLibrary]
    (payload : Option (List ContentPart)) (ext : Extensions) :
    ∀ e ∈ requestMembers payload ext, KeyedIfSome e.2 := by
  have hactor : ∀ subject, (actorJson subject).Keyed := by simp [actorJson]
  have hagent : ∀ agent, (agentJson agent).Keyed := by simp [agentJson]
  have htokens : ∀ tokens, (messageContext tokens).Keyed := by
    simp [messageContext]
  have hdelegation : ∀ delegation, (delegationJson delegation).Keyed := by simp [delegationJson]
  have hmodel : ∀ model, Json.Keyed (.object [("name", .string model)]) := by
    simp
  simp only [requestMembers, List.forall_mem_append, List.forall_mem_cons, List.forall_mem_map]
  refine ⟨⟨.map (fun _ => keyed_jsonNat _) _, .map hactor _, .map hagent _, .map htokens _,
    .map hmodel _, .map keyed_jsonNat _, .map hdelegation _, by simp⟩, fun m hm => ?_⟩
  exact (keyed_attachCapabilityCoords _ m hm).ifSome

theorem keyed_buildUnmappedGaps [SlotRecords] [AuditLibrary] (ext : Extensions) :
    Json.Keyed (.object (buildUnmappedGaps ext)) := by
  have hframework : ∀ framework, (frameworkJson framework).Keyed := by
    simp [frameworkJson]
  have hworkload : ∀ workload, (workloadJson workload).Keyed := by
    simp [workloadJson]
  refine keyed_nil.insertSomes ?_
  simp only [List.forall_mem_cons]
  exact ⟨.map (fun _ => .string _) _, .map MCPExtension.keyed _, .map hframework _,
    .map (fun _ => keyed_jsonStrings _) _, .map hworkload _, .map .string _, by simp⟩

end Events

section Shape

def Unsigned (ms : Members) : Prop :=
  ∀ un, ms.lookup "unmapped" = some un → ∃ us, un = .object us ∧ us ≠ [] ∧
    us.lookup "signature_b64" = none ∧ us.lookup "signature_key_id" = none

structure EventShape (ms : Members) : Prop where
  keyed : Json.Keyed (.object ms)
  typeUid : ∃ n < 2 ^ 63, ms.lookup "type_uid" = some (jsonNat n)
  metadata : ∃ metadata, ms.lookup "metadata" = some (.object metadata)
  unattested : ms.lookup "attestation_list" = none
  unmapped : Unsigned ms

theorem keys_attachCapabilityCoords (content : List ContentPart) :
    (attachCapabilityCoords content).map Prod.fst ⊆ ["tool", "api", "resource"] := by
  fun_induction attachCapabilityCoords content with
  | case1 => simp
  | case2 => simp
  | case3 => simp
  | case4 _ _ _ _ ih => exact ih

theorem Unsigned.getD {ms : Members} (h : Unsigned ms) (hkeyed : Json.Keyed (.object ms)) :
    ∃ us, (ms.lookup "unmapped").getD (.object []) = .object us ∧ Json.Keyed (.object us) ∧
      us.lookup "signature_b64" = none ∧ us.lookup "signature_key_id" = none := by
  cases hun : ms.lookup "unmapped" with
  | none => exact ⟨[], rfl, keyed_nil, rfl, rfl⟩
  | some un =>
    obtain ⟨us, rfl, -, hsignature, hkeyId⟩ := h un hun
    exact ⟨us, rfl, hkeyed.of_lookup hun, hsignature, hkeyId⟩

theorem insertSomes_aidMembers_ne_nil (us : Members) (log : DecisionLog) :
    insertSomes us (aidMembers log) ≠ [] := by
  intro hnil
  have hdecision : (insertSomes us (aidMembers log)).lookup "aid.decision" =
      some (decisionJson log) := by
    rw [aidMembers, insertSomes, List.foldl_cons, ← insertSomes, lookup_insertSomes_of_ne (by simp)]
    simp [lookup_insertMember]
  rw [hnil] at hdecision
  cases hdecision

theorem EventShape.applyDecision {ms : Members} (h : EventShape ms) (log : DecisionLog) :
    ∃ ns, PraxisPolicy.applyDecision (.object ms) log = .object ns ∧ EventShape ns := by
  have hruled : ∀ key, key ∉ (rulingMembers log).map Prod.fst →
      (insertSomes ms (rulingMembers log)).lookup key = ms.lookup key :=
    fun key hkey => lookup_insertSomes_of_ne hkey
  obtain ⟨us, hus, hkeyed, hsignature, hkeyId⟩ := h.unmapped.getD h.keyed
  have hun : ((insertSomes ms (rulingMembers log)).lookup "unmapped").getD (.object []) =
      .object us := by
    rw [hruled "unmapped" (by simp [rulingMembers]), hus]
  refine ⟨_, rfl, ?_, ?_, ?_, ?_, ?_⟩
  · refine (h.keyed.insertSomes (keyed_rulingMembers log)).entryMember ?_
    rw [hun]
    exact hkeyed.insertSomes (keyed_aidMembers log)
  · rw [lookup_entryMember, if_neg (by simp), hruled _ (by simp [rulingMembers])]
    exact h.typeUid
  · rw [lookup_entryMember, if_neg (by simp), hruled _ (by simp [rulingMembers])]
    exact h.metadata
  · rw [lookup_entryMember, if_neg (by simp), hruled _ (by simp [rulingMembers])]
    exact h.unattested
  · rintro un hlookup
    rw [lookup_entryMember, if_pos rfl, hun] at hlookup
    refine ⟨_, (Option.some.inj hlookup).symm, insertSomes_aidMembers_ne_nil us log, ?_, ?_⟩
    · rw [lookup_insertSomes_of_ne (by simp [aidMembers]), hsignature]
    · rw [lookup_insertSomes_of_ne (by simp [aidMembers]), hkeyId]

def requestKeys : List String :=
  ["status_id", "actor", "ai_agent", "message_context", "ai_model", "duration", "delegation",
    "tool", "api", "resource"]

variable [Contents] [SlotRecords] [AuditLibrary]

theorem keys_requestMembers (payload : Option (List ContentPart)) (ext : Extensions) :
    (requestMembers payload ext).map Prod.fst ⊆ requestKeys := by
  unfold requestKeys
  intro key hkey
  simp only [requestMembers, List.map_append, List.map_map, List.mem_append] at hkey
  rcases hkey with hkey | hkey
  · simp only [List.map_cons, List.map_nil, List.mem_cons, List.not_mem_nil] at hkey ⊢
    tauto
  · have hcoord := keys_attachCapabilityCoords _ hkey
    simp only [List.mem_cons, List.not_mem_nil] at hcoord ⊢
    tauto

theorem eventShape_buildEvent (payload : Option (List ContentPart)) (ext : Extensions)
    (config : OcsfAuditConfig) (nowRfc3339 : String) :
    ∃ ms, buildEvent payload ext config nowRfc3339 = .object ms ∧ EventShape ms := by
  generalize hactivity : (payload.map (activityOf · ext)).getD .unknown = activity
  have hid : activity.id < 100 := by cases activity <;> simp [Activity.id]
  refine ⟨_, rfl, ?_⟩
  rw [hactivity, insertSomes_append]
  set ms := insertSomes (baseMembers activity (eventMetadata ext config) nowRfc3339)
    (requestMembers payload ext) with hms
  have hlookup : ∀ key, key ∉ requestKeys → ms.lookup key =
      (baseMembers activity (eventMetadata ext config) nowRfc3339).lookup key :=
    fun key hkey => lookup_insertSomes_of_ne fun hmem =>
      hkey (keys_requestMembers payload ext hmem)
  have hkeyed : Json.Keyed (.object ms) :=
    (keyed_baseMembers activity ext config nowRfc3339).insertSomes (keyed_requestMembers payload ext)
  refine ⟨?_, ?_, ?_, ?_, ?_⟩
  · refine hkeyed.insertSomes ?_
    simp only [List.forall_mem_cons]
    exact ⟨.ite (keyed_buildUnmappedGaps ext).ifSome .none, by simp⟩
  · refine ⟨6003 * 100 + activity.id, by omega, ?_⟩
    rw [lookup_insertSomes_of_ne (by simp), hlookup _ (by simp [requestKeys])]
    rfl
  · refine ⟨eventMetadata ext config, ?_⟩
    rw [lookup_insertSomes_of_ne (by simp), hlookup _ (by simp [requestKeys])]
    rfl
  · rw [lookup_insertSomes_of_ne (by simp), hlookup _ (by simp [requestKeys])]
    rfl
  · intro un hun
    have hnone : ms.lookup "unmapped" = none := by
      rw [hlookup _ (by simp [requestKeys])]
      rfl
    rw [lookup_insertSomes_singleton, hnone, Option.or_none] at hun
    split at hun
    next hgaps =>
      cases hun
      refine ⟨_, rfl, by simpa using (Bool.and_eq_true_iff.1 hgaps).2, ?_, ?_⟩
      · rw [buildUnmappedGaps, lookup_insertSomes_of_ne (by simp)]
        rfl
      · rw [buildUnmappedGaps, lookup_insertSomes_of_ne (by simp)]
        rfl
    next => cases hun

end Shape

end PraxisPolicy
