import PraxisPolicy.PredicateEvaluation
import PraxisPolicy.PredicateLexer

/-!
# The parser of predicates

The nesting of a text bounds how deep the calls go, so the parser is written with a number of rounds
that grows with the tokens.
-/

namespace PraxisPolicy

open BinaryFloats TextScanning

inductive ParseError where
  | yaml (msg : String)
  | rule (rule msg : String)
  | unsupportedStep (rule kind : String)
  | predicate (predicate msg : String)
  | emptyAuthorization (location : String)
  deriving DecidableEq, Repr

def ParseError.display : ParseError → String
  | .yaml msg => "YAML parse error: " ++ msg
  | .rule text msg => "rule '" ++ text ++ "': " ++ msg
  | .unsupportedStep text kind => "unsupported step `" ++ kind ++ "` in rule '" ++ text ++ "'"
  | .predicate text msg => "predicate '" ++ text ++ "': " ++ msg
  | .emptyAuthorization location =>
    "in `" ++ location ++ "`: `authorization:` contributes no step; it declares neither " ++
      "`pre_invocation:` nor `post_invocation:`, or declares them empty. Name at least one " ++
      "step, or remove the block"

section Negation

mutual

def normalizeNot : Expression → Expression
  | .condition (.isTrue key) => .condition (.isFalse key)
  | .condition (.isFalse key) => .condition (.isTrue key)
  | .and parts => .or (normalizeNots parts)
  | .or parts => .and (normalizeNots parts)
  | .not inner => inner
  | other => .not other

def normalizeNots : List Expression → List Expression
  | [] => []
  | e :: es => normalizeNot e :: normalizeNots es

end

variable [Library]

def negate : Except Unorderable Bool → Except Unorderable Bool
  | .ok b => .ok (!b)
  | .error err => .error err

theorem evalExpression_not (bag : AttributeBag) (e : Expression) :
    evalExpression bag (.not e) = negate (evalExpression bag e) := by
  rw [evalExpression]
  cases evalExpression bag e <;> rfl

omit [Library] in
@[simp] theorem negate_negate (r : Except Unorderable Bool) : negate (negate r) = r := by
  cases r <;> simp [negate]

variable {parts : List Expression} {bag : AttributeBag}

theorem evalOr_normalizeNots
    (h : ∀ e ∈ parts, evalExpression bag (normalizeNot e) = negate (evalExpression bag e))
    (pending : Option Unorderable) :
    evalOr bag (normalizeNots parts) pending = negate (evalAnd bag parts pending) := by
  induction parts generalizing pending with
  | nil => cases pending <;> rfl
  | cons e es ih =>
    obtain ⟨he, hes⟩ := List.forall_mem_cons.1 h
    rw [normalizeNots, evalOr, evalAnd, he]
    rcases evalExpression bag e with err | _ | _
    · exact ih hes _
    · rfl
    · exact ih hes _

theorem evalAnd_normalizeNots
    (h : ∀ e ∈ parts, evalExpression bag (normalizeNot e) = negate (evalExpression bag e))
    (pending : Option Unorderable) :
    evalAnd bag (normalizeNots parts) pending = negate (evalOr bag parts pending) := by
  induction parts generalizing pending with
  | nil => cases pending <;> rfl
  | cons e es ih =>
    obtain ⟨he, hes⟩ := List.forall_mem_cons.1 h
    rw [normalizeNots, evalAnd, evalOr, he]
    rcases evalExpression bag e with err | _ | _
    · exact ih hes _
    · exact ih hes _
    · rfl

theorem evalCondition_isFalse (bag : AttributeBag) (key : String) :
    evalCondition (.isFalse key) bag = negate (evalCondition (.isTrue key) bag) := by
  simp only [evalCondition, negate]
  cases bag.resolveKey key <;> rfl

theorem evalExpression_normalizeNot (bag : AttributeBag) (e : Expression) :
    evalExpression bag (normalizeNot e) = evalExpression bag (.not e) := by
  rw [evalExpression_not]
  induction e using Expression.induction with
  | condition c =>
    cases c with
    | isTrue key =>
      rw [normalizeNot, evalExpression, evalExpression, evalCondition_isFalse]
    | isFalse key =>
      rw [normalizeNot, evalExpression, evalExpression, evalCondition_isFalse, negate_negate]
    | comparison | «exists» | inSet => rw [normalizeNot, evalExpression_not] <;> simp
  | and parts ih =>
    rw [normalizeNot, evalExpression, evalExpression]
    exact evalOr_normalizeNots ih none
  | or parts ih =>
    rw [normalizeNot, evalExpression, evalExpression]
    exact evalAnd_normalizeNots ih none
  | not inner _ => rw [normalizeNot, evalExpression_not, negate_negate]
  | always => rw [normalizeNot, evalExpression_not] <;> simp

end Negation

section Tokens

/-- The `Debug` form of a double. -/
class FloatText where
  debugF64 : Float64 → String

variable [Library] [FloatText]

def Tok.debug : Tok → String
  | .ident name => "Ident(" ++ Library.debugStr name ++ ")"
  | .stringLit value => "StringLit(" ++ Library.debugStr value ++ ")"
  | .intLit value => "IntLit(" ++ toString value ++ ")"
  | .floatLit value => "FloatLit(" ++ FloatText.debugF64 value ++ ")"
  | .boolLit value => "BoolLit(" ++ (if value then "true" else "false") ++ ")"
  | .eq => "Eq"
  | .notEq => "NotEq"
  | .gt => "Gt"
  | .gtEq => "GtEq"
  | .lt => "Lt"
  | .ltEq => "LtEq"
  | .and => "And"
  | .or => "Or"
  | .not => "Not"
  | .notWord => "NotWord"
  | .lParen => "LParen"
  | .rParen => "RParen"
  | .comma => "Comma"
  | .contains => "Contains"
  | .require => "Require"
  | .exists => "Exists"
  | .inWord => "In"

def debugNext : List Tok → String
  | [] => "None"
  | tok :: _ => "Some(" ++ tok.debug ++ ")"

def debugToks (toks : List Tok) : String := "[" ++ ", ".intercalate (toks.map Tok.debug) ++ "]"

end Tokens

section Parser

variable [Library] [FloatText]

def compareOp : Tok → Option CompareOp
  | .eq => some .eq
  | .notEq => some .notEq
  | .gt => some .gt
  | .gtEq => some .gtEq
  | .lt => some .lt
  | .ltEq => some .ltEq
  | .contains => some .contains
  | _ => none

def literalOf : Tok → Option Literal
  | .stringLit value => some (.string value)
  | .intLit value => some (.int value)
  | .floatLit value => some (.float value)
  | .boolLit value => some (.bool value)
  | _ => none

def finishInSet (valueKey : String) (negated : Bool) (toks : List Tok) :
    Except String (Expression × List Tok) :=
  match toks with
  | .ident setKey :: rest => .ok (.condition (.inSet valueKey setKey negated), rest)
  | _ => .error ("expected set-attribute identifier after `" ++ (if negated then "not " else "") ++
      "in`, got " ++ debugNext toks)

/-- Membership, a comparison, or nothing of the predicate's own. -/
def parseIdentifierPredicate (key : String) (toks : List Tok) :
    Except String (Expression × List Tok) :=
  match toks with
  | .inWord :: rest => finishInSet key false rest
  | .notWord :: .inWord :: rest => finishInSet key true rest
  | .notWord :: _ => .error notIsReserved
  | [] => .ok (.condition (.isTrue key), [])
  | tok :: rest =>
    match compareOp tok with
    | none => .ok (.condition (.isTrue key), tok :: rest)
    | some op =>
      match rest with
      | [] => .error ("expected literal RHS, got " ++ debugNext rest)
      | operand :: after =>
        match literalOf operand with
        | some value => .ok (.condition (.comparison key op value), after)
        | none =>
          match operand with
          | .ident _ => .error ("RHS-as-identifier on comparison operators not supported — " ++
              "for set membership use `value_key in set_key`")
          | _ => .error ("expected literal RHS, got " ++ debugNext rest)

def parseExists (toks : List Tok) : Except String (Expression × List Tok) :=
  match toks with
  | .lParen :: .ident key :: .rParen :: rest => .ok (.condition (.exists key), rest)
  | .lParen :: .ident _ :: rest =>
    .error ("expected `)` after exists() argument, got " ++ debugNext rest)
  | .lParen :: rest => .error ("exists(...) expects an attribute key, got " ++ debugNext rest)
  | _ => .error "expected `(` after `exists`"

def anyOf (first : Expression) (more : List Expression) : Expression :=
  if more.isEmpty then first else .or (first :: more)

def allOf (first : Expression) (more : List Expression) : Expression :=
  if more.isEmpty then first else .and (first :: more)

mutual

def parseOr : ℕ → List Tok → Except String (Expression × List Tok)
  | 0, _ => .error ""
  | rounds + 1, toks =>
    match parseAnd rounds toks with
    | .error msg => .error msg
    | .ok (first, rest) =>
      match orOperands rounds rest with
      | .ok (more, after) => .ok (anyOf first more, after)
      | .error msg => .error msg

def orOperands : ℕ → List Tok → Except String (List Expression × List Tok)
  | 0, _ => .error ""
  | rounds + 1, .or :: toks =>
    match parseAnd rounds toks with
    | .error msg => .error msg
    | .ok (e, rest) =>
      match orOperands rounds rest with
      | .ok (es, after) => .ok (e :: es, after)
      | .error msg => .error msg
  | _ + 1, toks => .ok ([], toks)

def parseAnd : ℕ → List Tok → Except String (Expression × List Tok)
  | 0, _ => .error ""
  | rounds + 1, toks =>
    match parseUnary rounds toks with
    | .error msg => .error msg
    | .ok (first, rest) =>
      match andOperands rounds rest with
      | .ok (more, after) => .ok (allOf first more, after)
      | .error msg => .error msg

def andOperands : ℕ → List Tok → Except String (List Expression × List Tok)
  | 0, _ => .error ""
  | rounds + 1, .and :: toks =>
    match parseUnary rounds toks with
    | .error msg => .error msg
    | .ok (e, rest) =>
      match andOperands rounds rest with
      | .ok (es, after) => .ok (e :: es, after)
      | .error msg => .error msg
  | _ + 1, toks => .ok ([], toks)

def parseUnary : ℕ → List Tok → Except String (Expression × List Tok)
  | 0, _ => .error ""
  | rounds + 1, .not :: toks =>
    match parseUnary rounds toks with
    | .ok (inner, rest) => .ok (.not inner, rest)
    | .error msg => .error msg
  | rounds + 1, toks => parseAtom rounds toks

def parseAtom : ℕ → List Tok → Except String (Expression × List Tok)
  | 0, _ => .error ""
  | rounds + 1, .lParen :: toks =>
    match parseOr rounds toks with
    | .ok (inner, .rParen :: rest) => .ok (inner, rest)
    | .ok _ => .error "expected `)`"
    | .error msg => .error msg
  | rounds + 1, .require :: .lParen :: toks =>
    match requireOperands rounds toks with
    | .ok ((first, more), rest) => .ok (normalizeNot (allOf first more), rest)
    | .error msg => .error msg
  | _ + 1, .require :: _ => .error "expected `(` after `require`"
  | _ + 1, .exists :: toks => parseExists toks
  | _ + 1, .ident key :: toks => parseIdentifierPredicate key toks
  | _ + 1, .notWord :: _ => .error notIsReserved
  | _ + 1, tok :: toks =>
    if (literalOf tok).isSome then
      .error ("a comparison names the attribute first, as in `subject.tenant == 'acme'`; a " ++
        "literal cannot open one")
    else .error ("expected atom, got " ++ debugNext (tok :: toks))
  | _ + 1, [] => .error ("expected atom, got " ++ debugNext [])

def requireOperands : ℕ → List Tok → Except String ((Expression × List Expression) × List Tok)
  | 0, _ => .error ""
  | rounds + 1, toks =>
    match parseOr rounds toks with
    | .error msg => .error msg
    | .ok (e, .comma :: rest) =>
      match requireOperands rounds rest with
      | .ok ((first, more), after) => .ok ((e, first :: more), after)
      | .error msg => .error msg
    | .ok (e, .rParen :: rest) => .ok ((e, []), rest)
    | .ok (_, rest) =>
      .error ("expected `,` or `)` in `require(...)`, got " ++ debugNext rest)

end

/-- Four rounds lead to the next token, or to the end. -/
def parseTokens (toks : List Tok) : Except String Expression :=
  match parseOr (4 * toks.length + 4) toks with
  | .error msg => .error msg
  | .ok (expr, []) => .ok expr
  | .ok (_, rest) => .error ("trailing tokens after expression: " ++ debugToks rest)

def parsePredicate (src : String) : Except ParseError Expression :=
  let text := trimChars src.toList
  let shown := String.ofList text
  match tokenize text with
  | .error fault =>
    .error (.predicate shown ("at character " ++ toString (fault.charOffset text) ++ ": " ++ fault.msg))
  | .ok toks =>
    match parseTokens toks with
    | .ok expr => .ok expr
    | .error msg => .error (.predicate shown msg)

end Parser

end PraxisPolicy
