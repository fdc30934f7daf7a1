import PraxisPolicy.RuleParsing
import PraxisPolicy.DelegationInvoker

/-!
# The arguments of steps

A call takes the name of a plugin and then `key: value` pairs; the pairs that are not fields of the
step become its configuration.
-/

namespace PraxisPolicy

open HashMaps JsonValues TextScanning

class PolicyText where
  /-- The `Debug` form of a YAML value. -/
  debugYaml : Yaml → String
  /-- The `Debug` form of an effect. -/
  debugEffect : Effect → String
  /-- The `Display` form of a YAML number. -/
  displayNumber : Number → String
  /-- `char::is_alphanumeric`. -/
  isAlphanumeric : Char → Bool

section Values

def Yaml.asSequence (v : Yaml) : Option (List Yaml) :=
  match v.untag with
  | .sequence items => some items
  | _ => none

def Yaml.asMapping (v : Yaml) : Option (List (Yaml × Yaml)) :=
  match v.untag with
  | .mapping entries => some entries
  | _ => none

def Yaml.insertEntry (key : String) (value : Yaml) : List (Yaml × Yaml) → List (Yaml × Yaml)
  | [] => [(.string key, value)]
  | (.string k, v) :: rest =>
    if k = key then (.string k, value) :: rest else (.string k, v) :: insertEntry key value rest
  | entry :: rest => entry :: insertEntry key value rest

def splitOnceColon (src : List Char) : Option (List Char × List Char) :=
  if ':' ∈ src then some (src.takeWhile (· ≠ ':'), (src.dropWhile (· ≠ ':')).tail) else none

def integerNumber (n : ℤ) : Number := if 0 ≤ n then .posInt n.toNat else .negInt n

variable [Library]

def delegateValue : ℕ → List Char → Except String Yaml
  | 0, _ => .error ""
  | rounds + 1, src => do
    let trimmed := trimChars src
    if trimmed = [] then throw "empty value"
    match stripBrackets trimmed with
    | some inner =>
      let items ← splitTopLevelCommas inner
      let values ← ((items.map trimChars).filter (· ≠ [])).mapM (delegateValue rounds)
      return .sequence values
    | none =>
      let text := String.ofList trimmed
      match readWholeLiteral trimmed with
      | .error err => throw err.msg
      | .ok (some value) => return .string value
      | .ok none =>
        if text = "true" then return .bool true
        if text = "false" then return .bool false
        match parseI64 text with
        | some n => return .number (integerNumber n)
        | none =>
          match Library.parseF64 text with
          | some value => return .number (.float value)
          | none => return .string text

def parseDelegateValue (src : List Char) : Except String Yaml := delegateValue (src.length + 1) src

end Values

section Calls

variable [Library]

def positionalName (call source missing : String) (parts : List (List Char)) :
    Except ParseError String :=
  match (parts.head?.map trimChars).filter (· ≠ []) with
  | none => .error (.rule call (source ++ ": " ++ missing))
  | some name => (literalValue name).mapError fun msg => .rule call (source ++ ": " ++ msg)

/-- `missing` and `empty` are said of an argument without a colon and of one without a key. -/
def keywordPair (source missing empty : String) (kwarg : List Char) :
    Except ParseError (String × List Char) :=
  match splitOnceColon kwarg with
  | none => .error (.rule (String.ofList kwarg) (source ++ ": " ++ missing))
  | some (key, value) =>
    if trimChars key = [] then .error (.rule (String.ofList kwarg) (source ++ ": " ++ empty))
    else .ok (String.ofList (trimChars key), trimChars value)

def configOverrideOf (entries : List (Yaml × Yaml)) : Option Yaml :=
  if entries.isEmpty then none else some (.mapping entries)

structure ParsedDelegateCall where
  pluginName : String
  configOverride : Option Yaml
  onError : Option String

def delegateKwarg (source : String) (acc : Option String × List (Yaml × Yaml))
    (kwarg : List Char) : Except ParseError (Option String × List (Yaml × Yaml)) := do
  let shown := String.ofList kwarg
  let (key, text) ← keywordPair source
    ("`delegate(...)` kwarg `" ++ shown ++ "` must be `key: value` (use the map form for richer config)")
    "`delegate(...)` kwarg has empty key" kwarg
  if key = "on_error" then
    let value ← (parseDelegateValue text).mapError fun msg =>
      ParseError.rule shown (source ++ ": on_error: " ++ msg)
    match value.asStr with
    | some onError => return (some onError, acc.2)
    | none => throw (.rule shown (source ++ ": `on_error` must be a string"))
  else if key = "plugin" then
    throw (.rule shown (source ++ ": `plugin` is set as the first positional argument of " ++
      "`delegate(...)`; don't pass it as a kwarg too"))
  else
    let value ← (parseDelegateValue text).mapError fun msg =>
      ParseError.rule shown (source ++ ": `" ++ key ++ "`: " ++ msg)
    return (acc.1, Yaml.insertEntry key value acc.2)

def parseDelegateCallArgs (inside : List Char) (source : String) :
    Except ParseError ParsedDelegateCall := do
  let call := "delegate(" ++ String.ofList inside ++ ")"
  let parts ← (splitTopLevelCommas inside).mapError fun msg =>
    ParseError.rule call (source ++ ": " ++ msg)
  let pluginName ← positionalName call source
    "`delegate(...)` requires a plugin name as the first positional argument" parts
  if pluginName = "" then
    throw (.rule call (source ++ ": `delegate(...)` plugin name cannot be empty"))
  let kwargs := (parts.tail.map trimChars).filter (· ≠ [])
  let (onError, entries) ← kwargs.foldlM (delegateKwarg source) (none, [])
  return ⟨pluginName, configOverrideOf entries, onError⟩

def elicitVerbs : List (String × ElicitKind) :=
  [("require_approval", .approval), ("confirm", .confirm), ("require_step_up", .stepUp),
    ("require_attestation", .attestation), ("request_info", .info), ("require_review", .review)]

structure ParsedElicitCall where
  pluginName : String
  fromRef : Option String
  channel : Option String
  purpose : Option String
  scope : Option String
  timeout : Option String
  onError : Option String
  config : List (Yaml × Yaml)

variable [PolicyText]

def elicitKwarg (verb source : String) (acc : ParsedElicitCall) (kwarg : List Char) :
    Except ParseError ParsedElicitCall := do
  let shown := String.ofList kwarg
  let (key, text) ← keywordPair source
    ("`" ++ verb ++ "(...)` argument `" ++ shown ++ "` must be `key: value` (the plugin name is the " ++
      "first positional argument)")
    ("`" ++ verb ++ "(...)` argument has empty key") kwarg
  let value ← (parseDelegateValue text).mapError fun msg =>
    ParseError.rule shown (source ++ ": `" ++ key ++ "`: " ++ msg)
  let asString : Except ParseError String :=
    match value with
    | .string s => .ok s
    | other => .error (.rule (verb ++ "(...)")
        (source ++ ": `" ++ key ++ "` must be a string, got " ++ PolicyText.debugYaml other))
  match key with
  | "from" => return { acc with fromRef := some (← asString) }
  | "channel" => return { acc with channel := some (← asString) }
  | "scope" => return { acc with scope := some (← asString) }
  | "purpose" | "prompt" => return { acc with purpose := some (← asString) }
  | "timeout" => return { acc with timeout := some (← asString) }
  | "on_error" => return { acc with onError := some (← asString) }
  | "plugin" => throw (.rule shown (source ++ ": the plugin name is the first positional argument " ++
      "of `" ++ verb ++ "(...)`; don't pass it as a kwarg too"))
  | key => return { acc with config := Yaml.insertEntry key value acc.config }

def parseElicitCallArgs (verb : String) (kind : ElicitKind) (inside : List Char) (source : String) :
    Except ParseError ElicitStep := do
  let call := verb ++ "(" ++ String.ofList inside ++ ")"
  let parts ← (splitTopLevelCommas inside).mapError fun msg =>
    ParseError.rule call (source ++ ": " ++ msg)
  let pluginName ← positionalName call source
    ("`" ++ verb ++ "(...)` requires an ElicitationHandler plugin name as the first positional " ++
      "argument") parts
  let kwargs := (parts.tail.map trimChars).filter (· ≠ [])
  let parsed ← kwargs.foldlM (elicitKwarg verb source)
    ⟨pluginName, none, none, none, none, none, none, []⟩
  match parsed.fromRef with
  | none => throw (.rule call (source ++ ": `" ++ verb ++ "(...)` requires `from` (the approver)"))
  | some fromRef =>
    return ⟨kind, parsed.pluginName, parsed.channel, fromRef, parsed.purpose, parsed.scope,
      parsed.timeout, configOverrideOf parsed.config, parsed.onError, source⟩

end Calls

section Maps

def parseDelegateStep (bodyVal : Yaml) (source : String) : Except ParseError DelegateStep := do
  let some body := bodyVal.asMapping
    | throw (.rule source ("`delegate:` body must be a map with `plugin:` and optional `config:` / " ++
        "`on_error:`"))
  let some plugin := Yaml.stringEntry "plugin" body
    | throw (.rule source ("`delegate:` requires `plugin: <name>` referencing a top-level plugin " ++
        "registered under `token.delegate`"))
  let some pluginName := plugin.asStr | throw (.rule source "`delegate.plugin` must be a string")
  if pluginName = "" then throw (.rule source "`delegate.plugin` cannot be empty")
  let onError ← match Yaml.stringEntry "on_error" body with
    | none => pure none
    | some value =>
      match value.asStr with
      | some onError => pure (some onError)
      | none => throw (.rule source
          "`delegate.on_error` must be a string (e.g. `deny`, `continue`)")
  return ⟨pluginName, Yaml.stringEntry "config" body, onError, source⟩

def stringListItem (item : Yaml) : Except String String :=
  match item.asStr with
  | none => .error "list entries must be strings"
  | some s => if trim s = "" then .error "list entries must not be empty" else .ok (trim s)

def parseStringList (v : Yaml) : Except String (List String) :=
  match v.asSequence with
  | none => .error "must be a list of strings"
  | some [] => .error "list must not be empty"
  | some items => items.mapM stringListItem

def parseStringSetSpec (v : Yaml) : Except String StringSetSpec :=
  match v with
  | .sequence _ => (parseStringList v).map .literal
  | .string s => if trim s = "" then .error "reference path must not be empty" else .ok (.ref (trim s))
  | _ => .error "must be a list of strings or a `data.*` reference string"

variable [PolicyText]

def scalarToString : Yaml → Option String
  | .string s => some s
  | .bool b => some (if b then "true" else "false")
  | .number n => some (PolicyText.displayNumber n)
  | _ => none

def labelEntry (labels : HashMap String String) (entry : Yaml × Yaml) :
    Except String (HashMap String String) :=
  match entry.1.asStr with
  | none => .error "label keys must be strings"
  | some key =>
    if trim key = "" then .error "label keys must not be empty"
    else
      match scalarToString entry.2 with
      | none => .error ("label `" ++ trim key ++ "` must be a scalar (string / bool / number)")
      | some value => .ok (labels.insert (trim key) value)

def parseLabelMap (v : Yaml) : Except String (HashMap String String) :=
  match v.asMapping with
  | none => .error "must be a map of `label: value` pairs"
  | some [] => .error "`custom` map must not be empty"
  | some entries => entries.foldlM labelEntry ∅

def parseMaxCostTier (v : Yaml) : Except String String :=
  match v.asStr with
  | none => .error "must be a string tier"
  | some tier => if trim tier = "" then .error "tier must not be empty" else .ok (trim tier)

def parseOnEmpty (v : Yaml) : Except String OnEmpty :=
  match v.asStr with
  | none => .error "must be `deny` or `fallback`"
  | some s =>
    match trim s with
    | "deny" => .ok .deny
    | "fallback" => .ok .fallback
    | other => .error ("unknown value `" ++ other ++ "` (expected `deny` or `fallback`)")

def restrictField (source : String) (spec : RestrictSpec) (entry : Yaml × Yaml) :
    Except ParseError RestrictSpec := do
  let some key := entry.1.asStr | throw (.rule source "`restrict:` field keys must be strings")
  let fieldErr := fun msg => ParseError.rule source ("`restrict." ++ trim key ++ "`: " ++ msg)
  match trim key with
  | "allow_models" =>
    return { spec with allowModels := some (← (parseStringSetSpec entry.2).mapError fieldErr) }
  | "deny_models" =>
    return { spec with denyModels := some (← (parseStringSetSpec entry.2).mapError fieldErr) }
  | "allow_regions" =>
    return { spec with allowRegions := some (← (parseStringSetSpec entry.2).mapError fieldErr) }
  | "allow_sites" =>
    return { spec with allowSites := some (← (parseStringSetSpec entry.2).mapError fieldErr) }
  | "max_cost_tier" =>
    return { spec with maxCostTier := some (← (parseMaxCostTier entry.2).mapError fieldErr) }
  | "custom" => return { spec with custom := ← (parseLabelMap entry.2).mapError fieldErr }
  | "on_empty" => return { spec with onEmpty := ← (parseOnEmpty entry.2).mapError fieldErr }
  | other => throw (.rule source ("unknown `restrict:` field `" ++ other ++ "` (allowed: " ++
      "allow_models, deny_models, allow_regions, allow_sites, max_cost_tier, custom, on_empty)"))

def RestrictSpec.isEmpty (spec : RestrictSpec) : Bool :=
  spec.allowModels.isNone && spec.denyModels.isNone && spec.allowRegions.isNone &&
    spec.allowSites.isNone && spec.maxCostTier.isNone && spec.custom.entries.card == 0

def parseRestrictSpec (bodyVal : Yaml) (source : String) : Except ParseError RestrictSpec := do
  let some body := bodyVal.asMapping
    | throw (.rule source ("`restrict:` body must be a map of constraint fields (allow_models / " ++
        "deny_models / allow_regions / allow_sites / max_cost_tier / custom / on_empty)"))
  let spec ← body.foldlM (restrictField source) ⟨none, none, none, none, none, ∅, .deny⟩
  if spec.isEmpty then
    throw (.rule source ("`restrict:` declares no constraint fields — it would restrict nothing; " ++
      "remove it or add at least one of allow_models / deny_models / allow_regions / allow_sites / " ++
      "max_cost_tier / custom"))
  return spec

end Maps

end PraxisPolicy
