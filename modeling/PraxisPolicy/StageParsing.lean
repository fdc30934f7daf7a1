import PraxisPolicy.PredicateParser
import PraxisPolicy.TextPieces

/-!
# Field pipelines from text

A chain of stages is cut at the pipes outside parentheses and literals.
-/

namespace PraxisPolicy

open TextScanning

def pluginIsRun : String :=
  "`plugin(name)` is not a step; `run(name)` is the one form that invokes a plugin, in a step " ++
    "list and in a pipe chain alike"

def splitDotDot : List Char → Option (List Char × List Char)
  | [] => none
  | c :: cs =>
    if c = '.' ∧ cs.head? = some '.' then some ([], cs.tail)
    else (splitDotDot cs).map fun cut => (c :: cut.1, cut.2)

def fitsI64 (n : ℤ) : Bool := -2 ^ 63 ≤ n && n < 2 ^ 63

def parseNumericWithSuffix (src : List Char) : Option ℤ :=
  let s := trimChars src
  let scaled (digits : List Char) (factor : ℤ) : Option ℤ :=
    ((parseI64 (String.ofList digits)).map (· * factor)).filter fitsI64
  match s.getLast? with
  | none => none
  | some 'k' | some 'K' => scaled s.dropLast 1000
  | some 'm' | some 'M' => scaled s.dropLast 1000000
  | some _ => scaled s 1

def parseBound (src : List Char) : Option (Option ℤ) :=
  if trimChars src = [] then some none else (parseNumericWithSuffix (trimChars src)).map some

def parseRangeInner (src : List Char) : Option (Option ℤ × Option ℤ) :=
  match splitDotDot src with
  | none => none
  | some (left, right) =>
    match parseBound left, parseBound right with
    | some none, some none => none
    | some min, some max => some (min, max)
    | _, _ => none

def tryParseRange (src : List Char) : Option Stage :=
  match src.head? with
  | none => none
  | some first =>
    if containsDotDot src && !isIdentStart first then
      (parseRangeInner src).map fun range => .range range.1 range.2
    else none

def parseTaintScope (src : List Char) (rule : String) : Except ParseError TaintScope :=
  match String.ofList src with
  | "session" => .ok .session
  | "message" => .ok .message
  | other => .error (.predicate rule
      ("unknown taint scope `" ++ other ++ "` (expected `session` or `message`)"))

def parseTaintScopes (rule : String) : List (List Char) → Except ParseError (List TaintScope)
  | [] => .ok []
  | part :: parts =>
    match parseTaintScope (trimChars part) rule with
    | .error err => .error err
    | .ok scope => (parseTaintScopes rule parts).map (scope :: ·)

def stripBrackets (src : List Char) : Option (List Char) :=
  if src.head? = some '[' ∧ src.tail.getLast? = some ']' then some src.tail.dropLast else none

def parseTaint (args : List Char) (rule : String) :
    Except ParseError (String × List TaintScope) :=
  let parts := splitTopLevel args ','
  let label := trimChars (parts.headD [])
  if label = [] then .error (.predicate rule "taint label must not be empty")
  else
    let scopes :=
      if parts.length = 1 then .ok [.session]
      else
        let scopeArg := trimChars ([','].intercalate parts.tail)
        match stripBrackets scopeArg with
        | some inner => parseTaintScopes rule (splitTopLevel inner ',')
        | none => (parseTaintScope scopeArg rule).map ([·])
    scopes.map fun scopes => (String.ofList label, scopes)

section Stages

def bareStages : List (String × Stage) :=
  [("str", .type .str), ("int", .type .int), ("bool", .type .bool), ("float", .type .float),
    ("email", .type .email), ("url", .type .url), ("uuid", .type .uuid),
    ("redact", .redact none), ("omit", .omit), ("hash", .hash),
    ("pii.redact", .scan .piiRedact), ("pii.detect", .scan .piiDetect),
    ("injection.scan", .scan .injectionScan)]

def parseUsizeError (src : List Char) : String :=
  let digits := if src.head? = some '+' then src.tail else src
  if src = [] then "cannot parse integer from empty string"
  else if digits ≠ [] ∧ digits.all Char.isDigit then "number too large to fit in target type"
  else "invalid digit found in string"

def parseStageMask (args : List Char) : Except String Stage :=
  match parseUsize (String.ofList (trimChars args)) with
  | some n => .ok (.mask n)
  | none => .error ("mask(N) expects a non-negative integer, got `" ++ String.ofList args ++ "`: " ++
      parseUsizeError (trimChars args))

def lengthBound : Option ℤ → Except String (Option ℕ)
  | none => .ok none
  | some n =>
    if 0 ≤ n then .ok (some n.toNat)
    else .error ("len bound `" ++ toString n ++ "` is not a valid length: " ++
      "out of range integral type conversion attempted")

def parseStageLen (args : List Char) : Except String Stage :=
  match parseRangeInner args with
  | none => .error ("len(...) expects N..M range, got `" ++ String.ofList args ++ "`")
  | some (min, max) =>
    match lengthBound min, lengthBound max with
    | .ok min, .ok max => .ok (.length min max)
    | .error msg, _ => .error msg
    | _, .error msg => .error msg

def literalValues : List (List Char) → Except String (List String)
  | [] => .ok []
  | part :: parts =>
    match literalValue (trimChars part) with
    | .error msg => .error msg
    | .ok value => (literalValues parts).map (value :: ·)

def parseStageEnum (args : List Char) : Except String Stage :=
  match literalValues (splitTopLevel args ',') with
  | .error msg => .error msg
  | .ok values =>
    let values := values.filter (· ≠ "")
    if values = [] then .error "enum() requires at least one value" else .ok (.enum values)

def parseStageRegex (args : List Char) : Except String Stage :=
  (literalValue (trimChars args)).map .regex

def validateRejected (args : List Char) : String :=
  let name := String.ofList (trimChars args)
  "`validate(" ++ name ++ ")` — named-validator dispatch is not implemented in this build. " ++
    "Use `regex(\"pattern\")` for a named-regex equivalent, or `run(" ++ name ++
    ")` for richer validation logic."

def parseStagePlugin (head : String) (args : List Char) : Except String Stage :=
  let name := String.ofList (trimChars args)
  if name = "" then .error ("`" ++ head ++ "(...)`: plugin name must not be empty")
  else .ok (.plugin name)

variable [Library] [FloatText]

def parseCallStage (src head : String) (args : List Char) : Except ParseError Stage :=
  let bad := fun (result : Except String Stage) => result.mapError (ParseError.predicate src)
  match head with
  | "mask" => bad (parseStageMask args)
  | "redact" =>
    match parsePredicate (String.ofList args) with
    | .ok condition => .ok (.redact (some condition))
    | .error err => .error (.predicate src ("invalid redact() condition: " ++ err.display))
  | "hash" => .error (.predicate src "hash takes no arguments")
  | "omit" => .error (.predicate src
      "omit takes no arguments — for conditional omit, use a policy rule predicate")
  | "len" => bad (parseStageLen args)
  | "enum" => bad (parseStageEnum args)
  | "regex" => bad (parseStageRegex args)
  | "validate" => .error (.predicate src (validateRejected args))
  | "plugin" => .error (.predicate src pluginIsRun)
  | "run" => bad (parseStagePlugin head args)
  | "taint" => (parseTaint args src).map fun taint => .taint taint.1 taint.2
  | other => .error (.predicate src ("unknown stage `" ++ other ++ "`"))

def parseStage (src : List Char) : Except ParseError Stage :=
  let s := trimChars src
  match tryParseRange s with
  | some stage => .ok stage
  | none =>
    match splitHeadArgs s with
    | none => .error (.predicate (String.ofList src) "expected stage identifier")
    | some (head, none) =>
      match bareStages.lookup (String.ofList head) with
      | some stage => .ok stage
      | none => .error (.predicate (String.ofList src) ("unknown stage `" ++ String.ofList head ++ "`"))
    | some (head, some args) => parseCallStage (String.ofList src) (String.ofList head) args

def parseStages (src : String) : List (List Char) → Except ParseError (List Stage)
  | [] => .ok []
  | part :: parts =>
    if trimChars part = [] then .error (.predicate src
      ("empty stage in a pipe chain; a leading, trailing or doubled `|` leaves a position with " ++
        "no stage in it"))
    else
      match parseStage (trimChars part) with
      | .error err => .error err
      | .ok stage => (parseStages src parts).map (stage :: ·)

def parsePipeline (src : List Char) : Except ParseError (List Stage) :=
  if trimChars src = [] then .ok []
  else parseStages (String.ofList src) (splitTopLevel (trimChars src) '|')

end Stages

end PraxisPolicy
