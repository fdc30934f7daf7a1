import PraxisPolicy.FieldPaths
import PraxisPolicy.StepArguments

/-!
# Steps and effects from YAML

The functions that read the entries of a phase call each other along the document.
-/

namespace PraxisPolicy

open HashMaps TextScanning

inductive PolicyStep where
  | rule (rule : Rule)
  | pdp (call : PdpCall) (onDeny onAllow : List PolicyStep)
  | plugin (name : String)
  | delegate (step : DelegateStep)
  | elicit (step : ElicitStep)
  | taint (label : String) (scopes : List TaintScope)
  | restrict (spec : RestrictSpec)

section Texts

def callArguments (trimmed : List Char) (verb : String) : Except ParseError (List Char) :=
  match extractCallArgs trimmed verb.toList with
  | some inside => .ok inside
  | none => .error (.rule (String.ofList trimmed) ("malformed `" ++ verb ++ "(...)`"))

def runStep (trimmed : List Char) : Except ParseError PolicyStep := do
  let name := trimChars (← callArguments trimmed "run")
  if name = [] then
    throw (.rule (String.ofList trimmed) "`run(...)`: plugin name must not be empty")
  return .plugin (String.ofList name)

variable [Library] [FloatText] [PolicyText]

def parseStepString (line source : String) : Except ParseError PolicyStep :=
  let trimmed := trimChars line.toList
  if startsWith trimmed "taint(" then do
    let taint ← parseTaint (← callArguments trimmed "taint") (String.ofList trimmed)
    return .taint taint.1 taint.2
  else if startsWith trimmed "plugin(" then .error (.rule (String.ofList trimmed) pluginIsRun)
  else if startsWith trimmed "run(" then runStep trimmed
  else if startsWith trimmed "delegate(" then do
    let parsed ← parseDelegateCallArgs (← callArguments trimmed "delegate") source
    return .delegate ⟨parsed.pluginName, parsed.configOverride, parsed.onError, source⟩
  else
    match elicitVerbs.find? fun verb => startsWith trimmed (verb.1 ++ "(") with
    | some (verb, kind) => do
      return .elicit (← parseElicitCallArgs verb kind (← callArguments trimmed verb) source)
    | none => (parseRule (String.ofList trimmed) source).map .rule

end Texts

mutual

def stepToTopLevelEffect : PolicyStep → Effect
  | .rule rule => .when rule.condition rule.effects rule.source
  | .pdp call onDeny onAllow =>
    .pdp call (stepsToTopLevelEffects onAllow) (stepsToTopLevelEffects onDeny)
  | .plugin name => .plugin name
  | .delegate step => .delegate step
  | .elicit step => .elicit step
  | .taint label scopes => .taint label scopes
  | .restrict spec => .restrict spec

def stepsToTopLevelEffects : List PolicyStep → List Effect
  | [] => []
  | step :: steps => stepToTopLevelEffect step :: stepsToTopLevelEffects steps

end

def stepToEffect (step : PolicyStep) (source : String) : Except ParseError Effect :=
  match step with
  | .plugin name => .ok (.plugin name)
  | .delegate step => .ok (.delegate step)
  | .elicit step => .ok (.elicit step)
  | .taint label scopes => .ok (.taint label scopes)
  | .restrict spec => .ok (.restrict spec)
  | .rule ⟨.always, _, _⟩ => .error (.rule source
      "unconditional rule inside `do:` is not supported (use the effect on its own)")
  | .rule _ => .error (.rule source ("conditional rules nested inside `do:` are not supported " ++
      "(use a sibling `when:`/`do:` rule instead)"))
  | .pdp _ _ _ => .error (.rule source
      "PDP calls inside `do:` are not supported (use a sibling step instead)")

section EffectTexts

def isValidFieldPath [PolicyText] (path : String) : Bool :=
  match (stripPrefix "args." path).or (stripPrefix "result." path) with
  | none => false
  | some rest =>
    rest ≠ "" && (segments rest).all fun seg =>
      seg == "**" || (seg ≠ "" && seg.toList.all fun c => PolicyText.isAlphanumeric c || c == '_')

def redactMissing (path : String) (stages : List Stage) : Bool :=
  (segments path).contains "**" && !stages.any Stage.isRedact

variable [Library] [FloatText] [PolicyText]

/-- `none` for a text that is no field operation. -/
def tryParseFieldOp (src : List Char) (rule : String) : Except ParseError (Option Effect) :=
  match findTopLevelPipe src with
  | none => .ok none
  | some (before, after) =>
    let path := String.ofList (trimChars before)
    let chain := trimChars after
    if path = "" ∨ chain = [] ∨ isValidFieldPath path = false then .ok none
    else
      match parsePipeline chain with
      | .error err => .error (.rule rule ("field op `" ++ path ++ "`: " ++ err.display))
      | .ok stages =>
        if redactMissing path stages then .error (.rule rule "`**` paths require a redact stage")
        else if stages.isEmpty then .error (.rule rule ("field op `" ++ path ++ "` has no stages"))
        else .ok (some (.fieldOp path stages))

def parseEffectString (s source : String) : Except ParseError Effect :=
  let trimmed := trimChars s.toList
  match tryBareAction trimmed with
  | some [only] => .ok only
  | _ =>
    match tryParseDenyCall trimmed s with
    | .error err => .error err
    | .ok (some effect) => .ok effect
    | .ok none =>
      match tryParseFieldOp trimmed s with
      | .error err => .error err
      | .ok (some fieldOp) => .ok fieldOp
      | .ok none => do stepToEffect (← parseStepString s source) source

end EffectTexts

def PdpDialect.fromBuiltinKey : String → Option PdpDialect
  | "cedar" => some .cedar
  | "opa" => some .opa
  | "authzen" => some .authZen
  | "nemo" => some .neMo
  | "cel" => some .cel
  | _ => none

def isKnownPdpDialect (key : String) : Bool :=
  let base := trim (String.ofList (key.toList.takeWhile (· ≠ '(')))
  base = "pdp" || (PdpDialect.fromBuiltinKey base).isSome

def unknownStepMapKey (key : String) : ParseError :=
  .rule key ("`" ++ key ++ ":` is not a step-map key. Accepted: `when:` with `do:`, `sequential:`, " ++
    "`parallel:`, `delegate:`, `restrict:`, a built-in PDP dialect (`cedar:`, `cel:`, `opa:`, " ++
    "`authzen:`, `nemo:`), or `pdp(name):` for a custom dialect. A custom PDP dialect is written " ++
    "`pdp(" ++ key ++ "):`, not `" ++ key ++ ":`")

def splitLast (c : Char) (cs : List Char) : Option (List Char × List Char) :=
  if c ∈ cs then
    some (((cs.reverse.dropWhile (· ≠ c)).tail).reverse, (cs.reverse.takeWhile (· ≠ c)).reverse)
  else none

/-- `none` for a key without a call signature. -/
def splitCallKey (key : List Char) : Except ParseError (Option (String × String)) :=
  if '(' ∈ key then
    match splitLast ')' key with
    | none => .error (.rule (String.ofList key) "missing `)` in PDP call signature")
    | some (before, after) =>
      let name := key.takeWhile (· ≠ '(')
      if before.length < name.length ∨ trimChars after ≠ [] then
        .error (.rule (String.ofList key)
          "the `)` must end a PDP call signature, with nothing after it")
      else
        match literalValue (before.drop (name.length + 1)) with
        | .error msg => .error (.rule (String.ofList key) msg)
        | .ok inside => .ok (some (String.ofList (trimChars name), inside))
  else .ok none

def stripColon (key : List Char) : List Char :=
  if key.getLast? = some ':' then (key.dropLast.reverse.dropWhile isWhitespace).reverse else key

def parsePdpKey (key : String) : Except ParseError (PdpDialect × Option String) :=
  let trimmed := stripColon (trimChars key.toList)
  match splitCallKey trimmed with
  | .error err => .error err
  | .ok none =>
    match PdpDialect.fromBuiltinKey (String.ofList trimmed) with
    | some dialect => .ok (dialect, none)
    | none => .error (unknownStepMapKey (String.ofList trimmed))
  | .ok (some (name, inside)) =>
    if name = "pdp" then
      if inside = "" then .error (.rule (String.ofList trimmed)
        "`pdp(name):` names the custom dialect to route to, so the name must not be empty")
      else .ok (.custom inside, none)
    else
      match PdpDialect.fromBuiltinKey name with
      | some dialect => .ok (dialect, some inside)
      | none => .error (unknownStepMapKey (String.ofList trimmed))

def hasKey (m : List (Yaml × Yaml)) (key : String) : Bool := (Yaml.stringEntry key m).isSome

def groupKey : List (Yaml × Yaml) → Option String
  | [(key, _)] => key.asStr.map trim
  | _ => none

def unexpectedKey (m : List (Yaml × Yaml)) : Option String :=
  (m.map fun entry => entry.1.asStr.getD "").find? fun key =>
    !(["when", "do", "id"].contains key)

section Sizes

theorem Yaml.sizeOf_untag_le (v : Yaml) : sizeOf v.untag ≤ sizeOf v := by
  induction v using Yaml.untag.induct with
  | case1 tag value ih =>
    rw [untag]
    simp only [tagged.sizeOf_spec]
    omega
  | case2 v h => rw [untag]; exact h

variable {v : Yaml} {m : List (Yaml × Yaml)}

theorem Yaml.sizeOf_asSequence {items : List Yaml} (h : v.asSequence = some items) :
    sizeOf items < sizeOf v := by
  have hle := v.sizeOf_untag_le
  unfold asSequence at h
  split at h
  · rename_i hv
    cases h
    rw [hv, sequence.sizeOf_spec] at hle
    omega
  · cases h

theorem Yaml.sizeOf_asMapping (h : v.asMapping = some m) :
    sizeOf m < sizeOf v := by
  have hle := v.sizeOf_untag_le
  unfold asMapping at h
  split at h
  · rename_i hv
    cases h
    rw [hv, mapping.sizeOf_spec] at hle
    omega
  · cases h

theorem Yaml.sizeOf_stringEntry {key : String}
    (h : stringEntry key m = some v) : sizeOf v < sizeOf m := by
  induction m using stringEntry.induct key with
  | case1 => cases h
  | case2 value rest =>
    rw [stringEntry, if_pos rfl] at h
    cases h
    simp only [List.cons.sizeOf_spec, Prod.mk.sizeOf_spec]
    omega
  | case3 k value rest hne ih =>
    rw [stringEntry, if_neg hne] at h
    have := ih h
    simp only [List.cons.sizeOf_spec]
    omega
  | case4 entry rest hentry ih =>
    rw [stringEntry] at h
    · have := ih h
      simp only [List.cons.sizeOf_spec]
      omega
    · exact hentry

end Sizes

section Entries

variable [PolicyText]

def groupItems (kind : String) (body : Yaml) : Except ParseError (List Yaml) :=
  match body.asSequence with
  | none => .error (.rule (PolicyText.debugYaml body)
      ("`" ++ kind ++ ":` body must be a list of effects"))
  | some [] => .error (.rule (PolicyText.debugYaml body) ("`" ++ kind ++ ":` body is empty"))
  | some items => .ok items

theorem sizeOf_groupItems {kind : String} {body : Yaml} {items : List Yaml}
    (h : groupItems kind body = .ok items) : sizeOf items < sizeOf body := by
  unfold groupItems at h
  split at h
  · cases h
  · cases h
  · rename_i hbody
    cases h
    exact Yaml.sizeOf_asSequence hbody

variable [Library] [FloatText]

def ruleCondition (predicate rule : String) : Except ParseError Expression := do
  rejectFieldOperationInRulePosition predicate.toList rule
  (parsePredicate predicate).mapError fun err => .rule rule err.display

/-- In a map with no other keys than a structured rule has. -/
def whenCondition (m : List (Yaml × Yaml)) : Except ParseError (String × Expression) :=
  let shown := PolicyText.debugYaml (.mapping m)
  match unexpectedKey m with
  | some key => .error (.rule shown
      ("unexpected key `" ++ key ++ "` in when/do rule (allowed: `when`, `do`, `id`)"))
  | none =>
    match Yaml.stringEntry "when" m with
    | none => .error (.rule shown "`when:` key missing from when/do rule")
    | some whenVal =>
      match whenVal.asStr with
      | none => .error (.rule (PolicyText.debugYaml whenVal) "`when:` must be a predicate string")
      | some predicate => do return (predicate, ← ruleCondition predicate ("when: " ++ predicate))

/-- `shown` and `missing` are the place and the text of the error for no effects. -/
def ruleWithEffects (condition : Expression) (predicate rule shown missing source : String)
    (effects : List Effect) : Except ParseError PolicyStep := do
  if effects.isEmpty then throw (.rule shown missing)
  rejectRequireWithAllow predicate.toList effects rule
  return .rule ⟨condition, effects, source⟩

def isShorthandKey (key : String) : Bool :=
  !(["delegate", "sequential", "parallel"].contains key || isKnownPdpDialect key)

def checkedParallel (effects : List Effect) (source : String) : Except ParseError Effect :=
  match (Effect.parallel effects).validateParallelPurity with
  | .ok () => .ok (.parallel effects)
  | .error e => .error (.rule source ("`parallel:` contains a mutation effect (" ++
      PolicyText.debugEffect e ++ "); use `sequential:` for ordered mutations"))

mutual

def parseStep (value : Yaml) (source : String) : Except ParseError PolicyStep :=
  match value with
  | .string s => parseStepString s source
  | .mapping m => parseStepMap m source
  | other => .error (.rule (PolicyText.debugYaml other) "step must be a string or a single-key map")
termination_by 4 * sizeOf value + 1

def parseStepMap (m : List (Yaml × Yaml)) (source : String) : Except ParseError PolicyStep :=
  if hasKey m "when" && hasKey m "do" then parseWhenDoRule m source
  else
    match m with
    | [(keyVal, bodyVal)] =>
      match keyVal.asStr with
      | none => .error (.rule (PolicyText.debugYaml keyVal) "PDP step key must be a string")
      | some key => parseKeyedStep key bodyVal source
    | m => .error (.rule (PolicyText.debugYaml (.mapping m)) ("step map must have exactly one key " ++
        "(PDP call signature, `when:`/`do:`, or a `predicate: [effects...]` shorthand)"))
termination_by 4 * sizeOf m + 1

def parseKeyedStep (key : String) (body : Yaml) (source : String) : Except ParseError PolicyStep :=
  match body with
  | .sequence items =>
    if isShorthandKey (trim key) then parseShorthandMultiEffect (trim key) items source
    else parseStructuredStep key (.sequence items) source
  | body => parseStructuredStep key body source
termination_by 4 * sizeOf body + 2

def parseStructuredStep (key : String) (body : Yaml) (source : String) :
    Except ParseError PolicyStep :=
  match trim key with
  | "delegate" => (parseDelegateStep body source).map .delegate
  | "restrict" => (parseRestrictSpec body source).map .restrict
  | "sequential" => do return .rule ⟨.always, [← parseSequentialEffect body source], source⟩
  | "parallel" => do return .rule ⟨.always, [← parseParallelEffect body source], source⟩
  | _ =>
    match parsePdpKey key with
    | .error err => .error err
    | .ok (dialect, parenArgs) =>
      match h : body.asMapping with
      | none => .error (.rule (PolicyText.debugYaml body)
          ("`" ++ key ++ ":` body must be a map (with on_deny / on_allow / args)"))
      | some entries =>
        have := Yaml.sizeOf_asMapping h
        match extractPdpBody entries source ([], [], []) with
        | .error err => .error err
        | .ok (args, onDeny, onAllow) =>
          .ok (.pdp ⟨dialect, (parenArgs.map Yaml.string).getD (.mapping args)⟩ onDeny onAllow)
termination_by 4 * sizeOf body + 1

/-- The arguments and the two lists of reactions so far. -/
def extractPdpBody (entries : List (Yaml × Yaml)) (source : String)
    (acc : List (Yaml × Yaml) × List PolicyStep × List PolicyStep) :
    Except ParseError (List (Yaml × Yaml) × List PolicyStep × List PolicyStep) :=
  match entries with
  | [] => .ok acc
  | (k, v) :: rest =>
    match k.asStr with
    | some "on_deny" => do
      extractPdpBody rest source (acc.1, ← parseReactionList v source "on_deny", acc.2.2)
    | some "on_allow" => do
      extractPdpBody rest source (acc.1, acc.2.1, ← parseReactionList v source "on_allow")
    | _ => extractPdpBody rest source (acc.1 ++ [(k, v)], acc.2.1, acc.2.2)
termination_by 4 * sizeOf entries

def parseReactionList (v : Yaml) (source which : String) : Except ParseError (List PolicyStep) :=
  match h : v.asSequence with
  | none => .error (.rule (PolicyText.debugYaml v) ("`" ++ which ++ ":` must be a list of steps"))
  | some items =>
    have := Yaml.sizeOf_asSequence h
    parseSteps items (source ++ "." ++ which) 0
termination_by 4 * sizeOf v

def parseSteps (items : List Yaml) (place : String) (index : ℕ) :
    Except ParseError (List PolicyStep) :=
  match items with
  | [] => .ok []
  | item :: items => do
    let step ← parseStep item (place ++ "[" ++ toString index ++ "]")
    let steps ← parseSteps items place (index + 1)
    return step :: steps
termination_by 4 * sizeOf items

def parseWhenDoRule (m : List (Yaml × Yaml)) (source : String) : Except ParseError PolicyStep :=
  let shown := PolicyText.debugYaml (.mapping m)
  match whenCondition m with
  | .error err => .error err
  | .ok (predicate, condition) =>
    match h : Yaml.stringEntry "do" m with
    | none => .error (.rule shown "`do:` key missing from when/do rule")
    | some doVal => do
      have := Yaml.sizeOf_stringEntry h
      let effects ← parseDoBody doVal source
      ruleWithEffects condition predicate ("when: " ++ predicate) shown "`do:` produced no effects"
        source effects
termination_by 4 * sizeOf m

def parseShorthandMultiEffect (predicate : String) (items : List Yaml) (source : String) :
    Except ParseError PolicyStep := do
  let condition ← ruleCondition predicate predicate
  let effects ← parseEffectValues items source
  ruleWithEffects condition predicate predicate predicate
    "shorthand multi-effect map produced no effects" source effects
termination_by 4 * sizeOf items + 1

def parseDoBody (value : Yaml) (source : String) : Except ParseError (List Effect) :=
  match value with
  | .string s => do return [← parseEffectString s source]
  | .sequence items => parseEffectValues items source
  | .mapping m => do return [← parseEffectValue (.mapping m) source]
  | other => .error (.rule (PolicyText.debugYaml other)
      "`do:` value must be a string, a list of effects, or an effect map")
termination_by 4 * sizeOf value + 3

def parseEffectValue (value : Yaml) (source : String) : Except ParseError Effect :=
  match value with
  | .string s => parseEffectString s source
  | .mapping m =>
    match m, groupKey m with
    | [(_, body)], some "sequential" => parseSequentialEffect body source
    | [(_, body)], some "parallel" => parseParallelEffect body source
    | [(_, body)], some "restrict" => (parseRestrictSpec body source).map .restrict
    | m, _ => do stepToEffect (← parseStep (.mapping m) source) source
  | other => .error (.rule (PolicyText.debugYaml other) "effect entry must be a string or a map")
termination_by 4 * sizeOf value + 2

def parseEffectValues (items : List Yaml) (source : String) : Except ParseError (List Effect) :=
  match items with
  | [] => .ok []
  | item :: items => do
    let effect ← parseEffectValue item source
    let effects ← parseEffectValues items source
    return effect :: effects
termination_by 4 * sizeOf items

def parseSequentialEffect (body : Yaml) (source : String) : Except ParseError Effect :=
  match h : groupItems "sequential" body with
  | .error err => .error err
  | .ok items =>
    have := sizeOf_groupItems h
    do return .sequential (← parseEffectValues items source)
termination_by 4 * sizeOf body

def parseParallelEffect (body : Yaml) (source : String) : Except ParseError Effect :=
  match h : groupItems "parallel" body with
  | .error err => .error err
  | .ok items =>
    have := sizeOf_groupItems h
    do checkedParallel (← parseEffectValues items source) source
termination_by 4 * sizeOf body

end

end Entries

end PraxisPolicy
