import PraxisPolicy.CanonicalJson
import PraxisPolicy.DecisionLogs
import PraxisPolicy.SlotRecords

/-!
# OCSF events

How a message, its extensions and the decision log become one audit event.
-/

namespace PraxisPolicy

open HashMaps JsonValues TextScanning

inductive ResourceType where
  | file | blob | uri | database | api | memory | artifact
  deriving DecidableEq, Repr

def ResourceType.debug : ResourceType → String
  | .file => "File"
  | .blob => "Blob"
  | .uri => "Uri"
  | .database => "Database"
  | .api => "Api"
  | .memory => "Memory"
  | .artifact => "Artifact"

/-- A part of a message, with the fields that events show. -/
inductive ContentPart where
  | text
  | thinking
  | toolCall (toolCallId name : String) (callNamespace : Option String)
  | toolResult (isError : Bool)
  | resource (uri : String) (resourceType : ResourceType)
  | resourceRef
  | promptRequest
  | promptResult
  | image
  | video
  | audio
  | document
  deriving DecidableEq, Repr

structure OcsfAuditConfig where
  productName : String
  vendorName : String
  chain : Bool
  authorityUid : Option String
  includeGapFields : Bool
  deriving DecidableEq, Repr

def jsonNat (n : ℕ) : Json := .number (.posInt n)

def jsonOption {α : Type} (toJson : α → Json) (value : Option α) : Json :=
  (value.map toJson).getD .null

def jsonStrings (texts : List String) : Json := .array (texts.map .string)

def jsonMap (m : HashMap String KeyedJson) : Json :=
  .object ((sortedTexts m.keys).filterMap fun key => (m.lookup key).map fun v => (key, v.1))

section Activity

variable [Contents] [SlotRecords]

inductive Activity where
  | unknown
  | read
  | other (name : String)
  deriving DecidableEq, Repr

def Activity.id : Activity → ℕ
  | .unknown => 0
  | .read => 2
  | .other _ => 99

def Activity.name : Activity → String
  | .unknown => "Unknown"
  | .read => "Read"
  | .other name => name

def toolReadOnlyHint (ext : Extensions) (callName : Option String) : Bool :=
  match ext.mcp.bind MCPExtension.tool with
  | none => false
  | some tool =>
    callName.all (tool.name == ·) &&
      match (tool.annotations.lookup "readOnlyHint").map Subtype.val with
      | some (.bool true) => true
      | _ => false

def activityOf (content : List ContentPart) (ext : Extensions) : Activity :=
  let ofPart : ContentPart → Option Activity
    | .toolCall _ name _ =>
      some (if toolReadOnlyHint ext (some name) then .read else .other "Invoke Tool")
    | .toolResult _ => some (if toolReadOnlyHint ext none then .read else .other "Invoke Tool")
    | .promptRequest | .promptResult | .resource _ _ | .resourceRef => some .read
    | _ => none
  match content.findSome? ofPart with
  | some activity => activity
  | none => if content.any fun part => part = .text ∨ part = .thinking then .other "Completion"
    else .unknown

end Activity

section Events

variable [Contents] [SlotRecords] [AuditLibrary]

def ToolMetadata.toJson (tool : ToolMetadata) : Json :=
  .object (insertSomes [] [
    ("name", some (.string tool.name)),
    ("title", tool.title.map .string),
    ("description", tool.description.map .string),
    ("input_schema", tool.inputSchema.map Subtype.val),
    ("output_schema", tool.outputSchema.map Subtype.val),
    ("server_id", tool.serverId.map .string),
    ("namespace", tool.toolNamespace.map .string),
    ("annotations", some (jsonMap tool.annotations))])

def ResourceMetadata.toJson (resource : ResourceMetadata) : Json :=
  .object (insertSomes [] [
    ("uri", some (.string resource.uri)),
    ("name", resource.name.map .string),
    ("description", resource.description.map .string),
    ("mime_type", resource.mimeType.map .string),
    ("server_id", resource.serverId.map .string),
    ("annotations", some (jsonMap resource.annotations))])

def PromptMetadata.toJson (prompt : PromptMetadata) : Json :=
  .object (insertSomes [] [
    ("name", some (.string prompt.name)),
    ("description", prompt.description.map .string),
    ("arguments", prompt.arguments.map fun vs => .array (vs.map Subtype.val)),
    ("server_id", prompt.serverId.map .string),
    ("annotations", some (jsonMap prompt.annotations))])

def MCPExtension.toJson (mcp : MCPExtension) : Json :=
  .object (insertSomes [] [
    ("tool", mcp.tool.map ToolMetadata.toJson),
    ("resource", mcp.resource.map ResourceMetadata.toJson),
    ("prompt", mcp.prompt.map PromptMetadata.toJson)])

def eventMetadata (ext : Extensions) (config : OcsfAuditConfig) : Members :=
  insertSomes
    [("version", .string "1.9.0"),
      ("profiles", jsonStrings (["ai_operation", "security_control"] ++
        if config.chain then ["record_integrity"] else [])),
      ("product", .object [("name", .string config.productName),
        ("vendor_name", .string config.vendorName)])]
    [("correlation_uid", (ext.agent.bind AgentExtension.conversationId).map .string)]

def firstToolError (content : List ContentPart) : Option Bool :=
  content.findSome? fun
    | .toolResult isError => some isError
    | _ => none

def actorJson (subject : SubjectExtension) : Json :=
  .object [("user", .object [("uid", jsonOption .string subject.id),
      ("groups", jsonStrings (sortedTexts subject.teams))]),
    ("roles", jsonStrings (sortedTexts subject.roles))]

def agentJson (agent : AgentExtension) : Json :=
  .object [("uid", jsonOption .string agent.agentId),
    ("instance_uid", jsonOption .string agent.sessionId),
    ("parent_uid", jsonOption .string agent.parentAgentId),
    ("conversation_uid", jsonOption .string agent.conversationId),
    ("turn", jsonOption jsonNat agent.turn)]

def messageContext (tokens : TokenUsage) : Json :=
  .object [("prompt_tokens", jsonNat tokens.inputTokens),
    ("completion_tokens", jsonNat tokens.outputTokens),
    ("total_tokens", jsonNat tokens.totalTokens)]

def delegationJson (delegation : DelegationExtension Contents.detail) : Json :=
  let hopJson (hop : DelegationHop Contents.detail) : Json :=
    .object [("subject_uid", .string hop.subjectId),
      ("audience", jsonOption .string hop.audience),
      ("scopes_granted", jsonStrings hop.scopesGranted),
      ("ttl_seconds", jsonOption jsonNat hop.ttlSeconds),
      ("timestamp", .string (AuditLibrary.toRfc3339 hop.timestamp))]
  .object [("depth", jsonNat delegation.depth),
    ("origin_subject_uid", jsonOption .string delegation.originSubjectId),
    ("actor_subject_uid", jsonOption .string delegation.actorSubjectId),
    ("chain", .array (delegation.chain.map hopJson))]

def attachCapabilityCoords : List ContentPart → List (String × Json)
  | [] => []
  | .toolCall toolCallId name callNamespace :: _ =>
    [("tool", .object [("name", .string name), ("uid", .string toolCallId),
        ("namespace", jsonOption .string callNamespace)]),
      ("api", .object [("request", .object [("uid", .string toolCallId)])])]
  | .resource uri resourceType :: _ =>
    [("resource", .object [("uri", .string uri), ("type", .string resourceType.debug)])]
  | _ :: rest => attachCapabilityCoords rest

def frameworkJson (framework : FrameworkExtension) : Json :=
  .object [("framework", jsonOption .string framework.framework),
    ("framework_version", jsonOption .string framework.frameworkVersion),
    ("node_id", jsonOption .string framework.nodeId),
    ("graph_id", jsonOption .string framework.graphId)]

def workloadJson (workload : WorkloadIdentity) : Json :=
  .object [("spiffe_id", jsonOption .string workload.spiffeId),
    ("trust_domain", jsonOption .string workload.trustDomain),
    ("attestor", jsonOption .string workload.attestor),
    ("attested_at", jsonOption (fun time => .string (AuditLibrary.dateTimeText time))
      workload.attestedAt)]

def buildUnmappedGaps (ext : Extensions) : Members :=
  insertSomes [] [
    ("cmf.completion.stop_reason",
      (ext.completion.bind CompletionExtension.stopReason).map fun reason => .string reason.debug),
    ("cmf.mcp", ext.mcp.map MCPExtension.toJson),
    ("cmf.framework", ext.framework.map frameworkJson),
    ("cmf.security.labels", (ext.security.filter fun security => security.labels ≠ ∅).map
      fun security => jsonStrings (sortedTexts security.labels)),
    ("cmf.workload_identity",
      (ext.security.bind SecurityExtension.callerWorkload).map workloadJson),
    ("cmf.request.request_id", (ext.request.bind RequestExtension.requestId).map .string)]

def baseMembers (activity : Activity) (metadata : Members) (nowRfc3339 : String) : Members :=
  [("activity_id", jsonNat activity.id),
    ("activity_name", .string activity.name),
    ("category_uid", jsonNat 6),
    ("class_uid", jsonNat 6003),
    ("type_uid", jsonNat (6003 * 100 + activity.id)),
    ("severity_id", jsonNat 1),
    ("time", .string nowRfc3339),
    ("action_id", jsonNat 3),
    ("action", .string "Observed"),
    ("disposition_id", jsonNat 17),
    ("disposition", .string "Logged"),
    ("metadata", .object metadata)]

def requestMembers (payload : Option (List ContentPart)) (ext : Extensions) :
    List (String × Option Json) :=
  [("status_id", (payload.bind firstToolError).map fun isError => jsonNat (if isError then 2 else 1)),
    ("actor", (ext.security.bind SecurityExtension.subject).map actorJson),
    ("ai_agent", ext.agent.map agentJson),
    ("message_context", (ext.completion.bind CompletionExtension.tokens).map messageContext),
    ("ai_model", (ext.completion.bind CompletionExtension.model).map fun model =>
      .object [("name", .string model)]),
    ("duration", (ext.completion.bind CompletionExtension.latencyMs).map jsonNat),
    ("delegation", (ext.delegation.filter fun delegation =>
      delegation.delegated || !delegation.chain.isEmpty).map delegationJson)]
  ++ (attachCapabilityCoords (payload.getD [])).map fun m => (m.1, some m.2)

/-- There is no payload outside the message hooks. -/
def buildEvent (payload : Option (List ContentPart)) (ext : Extensions)
    (config : OcsfAuditConfig) (nowRfc3339 : String) : Json :=
  let activity := (payload.map (activityOf · ext)).getD .unknown
  let gaps := buildUnmappedGaps ext
  .object (insertSomes (baseMembers activity (eventMetadata ext config) nowRfc3339)
    (requestMembers payload ext ++
      [("unmapped", if config.includeGapFields && !gaps.isEmpty then some (.object gaps) else none)]))

end Events

section Decisions

variable [Contents] [SlotRecords] [AuditLibrary]

def violationDetail (violation : PluginViolation) : Json :=
  .object (insertSomes [("code", .string violation.code), ("reason", .string violation.reason)]
    [("description", violation.description.map .string),
      ("details", if violation.details.keys = ∅ then none else some (jsonMap violation.details))])

def actionStr : PluginAction → String
  | .allowed => "allowed"
  | .denied _ => "denied"
  | .modifiedPayload => "modified_payload"
  | .modifiedExtensions => "modified_extensions"
  | .denyIgnored _ => "deny_ignored"
  | .aborted => "aborted"
  | .error _ => "error"

def stepJson (step : DecisionStep) : Json :=
  .object (insertSomes
    [("plugin", .string step.pluginName), ("phase", .string step.phase.display),
      ("action", .string (actionStr step.action))]
    [("error", match step.action with
        | .error message => some (.string message)
        | _ => none),
      ("detail", match step.action with
        | .denied violation => some (violationDetail violation)
        | .denyIgnored violation => some (violationDetail violation)
        | _ => none)])

structure Ruling where
  actionId : ℕ
  action : String
  dispositionId : ℕ
  disposition : String
  verdict : Json

def DecisionLog.ruling (log : DecisionLog) : Ruling :=
  match log.verdict with
  | some (.deny violation) => ⟨2, "Denied", 2, "Blocked", .object [("deny",
      .object [("code", .string violation.code), ("reason", .string violation.reason)])]⟩
  | some .allow =>
    if log.steps.any fun step => match step.action with
        | .modifiedPayload | .modifiedExtensions => true
        | _ => false
    then ⟨4, "Modified", 1, "Allowed", .string "allow"⟩
    else ⟨1, "Allowed", 1, "Allowed", .string "allow"⟩
  | none => ⟨3, "Observed", 17, "Logged", .string "pending"⟩

def rulingMembers (log : DecisionLog) : List (String × Option Json) :=
  let violation := log.verdict.bind fun
    | .deny violation => some violation
    | .allow => none
  [("status_id", violation.map fun _ => jsonNat 2),
    ("status_code", violation.map fun violation => .string violation.code),
    ("status_detail", violation.map fun violation => .string violation.reason),
    ("action_id", some (jsonNat log.ruling.actionId)),
    ("action", some (.string log.ruling.action)),
    ("disposition_id", some (jsonNat log.ruling.dispositionId)),
    ("disposition", some (.string log.ruling.disposition))]

def decisionJson (log : DecisionLog) : Json :=
  .object (insertSomes
    [("verdict", log.ruling.verdict), ("steps", .array (log.steps.map stepJson))]
    [("deny_ignored", if log.steps.any fun step => match step.action with
        | .denyIgnored _ => true
        | _ => false
      then some (.bool true) else none)])

def aidMembers (log : DecisionLog) : List (String × Option Json) :=
  [("aid.decision", some (decisionJson log)),
    ("aid.span", log.span.map fun span => .object [("trace_id", .string span.traceId),
      ("span_id", .string span.spanId), ("parent_span_id", jsonOption .string span.parentSpanId)]),
    ("aid.taint.input_labels",
      if log.inputLabels = [] then none else some (jsonStrings log.inputLabels)),
    ("aid.content", log.inputHash.map fun hash => .object [("input_hash", .string hash),
      ("output_hash", jsonOption .string log.outputHash)]),
    ("aid.stream", log.streamSeq.map fun seq => .object [("epoch", jsonOption jsonNat log.epoch),
      ("stream_id", jsonOption .string log.streamId), ("stream_seq", jsonNat seq),
      ("emission_seq", jsonOption jsonNat log.emissionSeq)])]

def applyDecision (event : Json) (log : DecisionLog) : Json :=
  event.mapMembers fun ms =>
    entryMember (insertSomes ms (rulingMembers log)) "unmapped" (.object [])
      (Json.mapMembers (insertSomes · (aidMembers log)))

end Decisions

end PraxisPolicy
