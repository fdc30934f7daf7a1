import PraxisPolicy.ExtensionFilter
import PraxisPolicy.JsonObjects

/-!
# The records in the immutable slots

With the fields that audit events and session ids are read from.
-/

namespace PraxisPolicy

open HashMaps JsonValues

structure RequestExtension where
  requestId : Option String
  deriving DecidableEq, Repr

structure AgentExtension where
  sessionId : Option String
  conversationId : Option String
  turn : Option ℕ
  agentId : Option String
  parentAgentId : Option String
  deriving DecidableEq, Repr

structure ToolMetadata where
  name : String
  title : Option String
  description : Option String
  inputSchema : Option KeyedJson
  outputSchema : Option KeyedJson
  serverId : Option String
  toolNamespace : Option String
  annotations : HashMap String KeyedJson

structure ResourceMetadata where
  uri : String
  name : Option String
  description : Option String
  mimeType : Option String
  serverId : Option String
  annotations : HashMap String KeyedJson

structure PromptMetadata where
  name : String
  description : Option String
  arguments : Option (List KeyedJson)
  serverId : Option String
  annotations : HashMap String KeyedJson

structure MCPExtension where
  tool : Option ToolMetadata
  resource : Option ResourceMetadata
  prompt : Option PromptMetadata

inductive StopReason where
  | end_ | return_ | call | maxTokens | stopSequence
  deriving DecidableEq, Repr

def StopReason.debug : StopReason → String
  | .end_ => "End"
  | .return_ => "Return"
  | .call => "Call"
  | .maxTokens => "MaxTokens"
  | .stopSequence => "StopSequence"

structure TokenUsage where
  inputTokens : ℕ
  outputTokens : ℕ
  totalTokens : ℕ
  deriving DecidableEq, Repr

structure CompletionExtension where
  stopReason : Option StopReason
  tokens : Option TokenUsage
  model : Option String
  latencyMs : Option ℕ
  deriving DecidableEq, Repr

structure FrameworkExtension where
  framework : Option String
  frameworkVersion : Option String
  nodeId : Option String
  graphId : Option String
  deriving DecidableEq, Repr

/-- The records in the slots that events read. -/
class SlotRecords [Contents] where
  request : Contents.slot .request → RequestExtension
  agent : Contents.slot .agent → AgentExtension
  mcp : Contents.slot .mcp → MCPExtension
  completion : Contents.slot .completion → CompletionExtension
  framework : Contents.slot .framework → FrameworkExtension

section Access

variable [Contents] [SlotRecords]

def Extensions.request (ext : Extensions) : Option RequestExtension :=
  (ext.immutable .request).map fun slot => SlotRecords.request slot.value

def Extensions.agent (ext : Extensions) : Option AgentExtension :=
  (ext.immutable .agent).map fun slot => SlotRecords.agent slot.value

def Extensions.mcp (ext : Extensions) : Option MCPExtension :=
  (ext.immutable .mcp).map fun slot => SlotRecords.mcp slot.value

def Extensions.completion (ext : Extensions) : Option CompletionExtension :=
  (ext.immutable .completion).map fun slot => SlotRecords.completion slot.value

def Extensions.framework (ext : Extensions) : Option FrameworkExtension :=
  (ext.immutable .framework).map fun slot => SlotRecords.framework slot.value

end Access

end PraxisPolicy
