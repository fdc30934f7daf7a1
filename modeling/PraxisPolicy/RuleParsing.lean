import PraxisPolicy.StageParsing

/-!
# Rules from text

A rule is a predicate, a colon and an action.
-/

namespace PraxisPolicy

open TextScanning

def stepKinds : List (String × String) :=
  [("taint(", "taint"), ("run(", "run"), ("cedar:", "cedar"), ("opa(", "opa"),
    ("authzen(", "authzen"), ("nemo(", "nemo"), ("cel:", "cel"), ("sequential:", "sequential"),
    ("parallel:", "parallel")]

def startsWith (src : List Char) (start : String) : Bool := start.toList.isPrefixOf src

def detectStepKind (src : List Char) : Option String :=
  let s := src.dropWhile isWhitespace
  (stepKinds.find? fun kind => startsWith s kind.1).map Prod.snd

def isRequireForm (src : List Char) : Bool :=
  let s := trimChars src
  if startsWith s "require" then
    let rest := s.drop "require".toList.length
    (extractCallArgs ("require".toList ++ rest.dropWhile isWhitespace) "require".toList).isSome
  else false

def tryBareAction (src : List Char) : Option (List Effect) :=
  match String.ofList (trimChars src) with
  | "deny" => some [.deny none none]
  | "allow" => some [.allow]
  | _ => none

def stripStringLiteral (src : List Char) (rule : String) : Except ParseError String :=
  let s := trimChars src
  match readWholeLiteral s with
  | .ok (some value) => .ok value
  | .ok none => .error (.rule rule ("expected a quoted string, got `" ++ String.ofList s ++ "`"))
  | .error err => .error (.rule rule err.msg)

def denyArg (rule : String) : Option (List Char) → Except ParseError (Option String)
  | none => .ok none
  | some part => (stripStringLiteral (trimChars part) rule).map some

/-- `none` for a text that is no call of `deny`. -/
def tryParseDenyCall (src : List Char) (rule : String) : Except ParseError (Option Effect) :=
  if startsWith src "deny(" then
    match extractCallArgs src "deny".toList with
    | none => .error (.rule rule "malformed `deny(...)`")
    | some inside =>
      match splitTopLevelCommas inside with
      | .error msg => .error (.rule rule ("deny(...): " ++ msg))
      | .ok parts =>
        match denyArg rule parts[0]? with
        | .error err => .error err
        | .ok reason =>
          match denyArg rule parts[1]? with
          | .error err => .error err
          | .ok code =>
            if 2 < parts.length then
              .error (.rule rule "deny(...) takes at most two args: deny('reason', 'code')")
            else .ok (some (.deny reason code))
  else .ok none

def parseAction (src : List Char) (rule : String) : Except ParseError (List Effect) :=
  match tryBareAction src with
  | some effects => .ok effects
  | none =>
    match tryParseDenyCall (trimChars src) rule with
    | .error err => .error err
    | .ok (some deny) => .ok [deny]
    | .ok none => .error (.rule rule ("unsupported action `" ++ String.ofList (trimChars src) ++
        "` — recognized: `deny`, `deny('reason')`, `deny('reason', 'code')`, `allow`"))

def Effect.isAllow : Effect → Bool
  | .allow => true
  | _ => false

def rejectRequireWithAllow (predicate : List Char) (effects : List Effect) (rule : String) :
    Except ParseError Unit :=
  if isRequireForm predicate && effects.any Effect.isAllow then
    .error (.rule rule ("`require(...)` states what must hold and denies when it does not, so its " ++
      "action can only be `deny`; write the predicate without `require` to allow on it"))
  else .ok ()

section Rules

variable [Library] [FloatText]

def fieldOperationInRulePosition (predicate : List Char) : Option (List Char) :=
  match splitTopLevel (trimChars predicate) '|' with
  | [] => none
  | head :: rest =>
    let head := trimChars head
    if (startsWith head "args." || startsWith head "result.") &&
        rest.any (fun part => (parseStage (trimChars part)).isOk) then some head
    else none

def rejectFieldOperationInRulePosition (predicate : List Char) (rule : String) :
    Except ParseError Unit :=
  match fieldOperationInRulePosition predicate with
  | some field => .error (.rule rule ("`" ++ String.ofList field ++
      "` is a field operation, and this is effect position: a rule here is a predicate with an " ++
      "optional `allow`/`deny`. Move the chain under `args:` or `result:`, keyed by the field it " ++
      "names"))
  | none => .ok ()

/-- After the guards that all spellings of a rule share. -/
def guardedRule (predicate : List Char) (effects : List Effect) (rule source : String) :
    Except ParseError Rule :=
  match rejectFieldOperationInRulePosition predicate rule with
  | .error err => .error err
  | .ok () =>
    match rejectRequireWithAllow predicate effects rule with
    | .error err => .error err
    | .ok () =>
      match parsePredicate (String.ofList predicate) with
      | .ok condition => .ok ⟨condition, effects, source⟩
      | .error err => .error (.rule rule err.display)

def parseRule (line source : String) : Except ParseError Rule :=
  let trimmed := trimChars line.toList
  let rule := String.ofList trimmed
  if startsWith trimmed "plugin(" then .error (.rule rule pluginIsRun)
  else
    match detectStepKind trimmed with
    | some kind =>
      .error (.unsupportedStep rule (kind ++ " (use parse_step for step kinds)"))
    | none =>
      match splitPredicateAction trimmed with
      | some (predicate, action) =>
        match parseAction action rule with
        | .ok effects => guardedRule predicate effects rule source
        | .error err => .error err
      | none =>
        match tryBareAction trimmed with
        | some effects => .ok ⟨.always, effects, source⟩
        | none =>
          match tryParseDenyCall trimmed rule with
          | .error err => .error err
          | .ok (some deny) => .ok ⟨.always, [deny], source⟩
          -- A bare predicate denies.
          | .ok none => guardedRule trimmed [.deny none none] rule source

end Rules

end PraxisPolicy
