import PraxisPolicy.KleeneLogic
import PraxisPolicy.RuleTrees

/-!
# Evaluating predicates

An order comparison whose operands cannot be ordered exactly has no safe boolean value.  `settled`
forgets which comparison failed; the rest is three-valued logic.
-/

namespace PraxisPolicy

open BinaryFloats JsonValues TextScanning KleeneLogic

variable [Library]

structure Unorderable where
  key : String
  deriving DecidableEq, Repr

def Unorderable.reason (err : Unorderable) : String :=
  "order comparison on `" ++ err.key ++
    "` failed (fail-closed): value is not a finite number, " ++
    "or an integer that cannot be compared exactly through f64"

inductive OrderOp where
  | gt | gtEq | lt | ltEq
  deriving DecidableEq, Repr

def valuesEq : AttributeValue → Literal → Bool
  | .bool a, .bool b => a == b
  | .int a, .int b => a == b
  | .float a, .float b => a.eq b
  | .string a, .string b => a == b
  | .int a, .float b => (Float64.ofInt a).eq b
  | .float a, .int b => a.eq (Float64.ofInt b)
  | _, _ => false

/-- Largest magnitude up to which every integer is a distinct double. -/
def f64ExactIntBound : ℤ := 9007199254740992

def i64AsExactF64 (n : ℤ) : Option Float64 :=
  if -f64ExactIntBound ≤ n ∧ n ≤ f64ExactIntBound then some (Float64.ofInt n) else none

def finiteF64 (f : Float64) : Option Float64 := if f.isFinite then some f else none

/-- Other spellings than integers parse as doubles. -/
def coerceF64NumericString (s : String) : Option Float64 :=
  match parseI64 (trim s) with
  | some n => i64AsExactF64 n
  | none => (Library.parseF64 (trim s)).bind finiteF64

def coerceF64Attr : AttributeValue → Option Float64
  | .int a => i64AsExactF64 a
  | .float a => finiteF64 a
  | .string s => coerceF64NumericString s
  | _ => none

def coerceF64Lit : Literal → Option Float64
  | .int b => i64AsExactF64 b
  | .float b => finiteF64 b
  | .string s => coerceF64NumericString s
  | .bool _ => none

/-- Every other pair than integers goes through doubles. -/
def numericCompare (attr : AttributeValue) (lit : Literal) (op : OrderOp) : Option Bool :=
  match attr, lit with
  | .int a, .int b => some <| match op with
    | .gt => decide (b < a)
    | .gtEq => decide (b ≤ a)
    | .lt => decide (a < b)
    | .ltEq => decide (a ≤ b)
  | attr, lit => do
    let a ← coerceF64Attr attr
    let b ← coerceF64Lit lit
    return match op with
      | .gt => b.lt a
      | .gtEq => b.le a
      | .lt => a.lt b
      | .ltEq => a.le b

def orderCompare (key : String) (attr : AttributeValue) (lit : Literal) (op : OrderOp) :
    Except Unorderable Bool :=
  match numericCompare attr lit op with
  | some b => .ok b
  | none => .error ⟨key⟩

/-- A missing attribute makes every comparison false except `!=`. -/
def evalComparison (key : String) (op : CompareOp) (lit : Literal) (bag : AttributeBag) :
    Except Unorderable Bool :=
  match bag.get key with
  | none => .ok (op == .notEq)
  | some attr =>
    match op with
    | .contains => .ok <| match attr, lit with
      | .stringSet _, .string s => bag.setContains key s
      | _, _ => false
    | .eq => .ok (valuesEq attr lit)
    | .notEq => .ok (!valuesEq attr lit)
    | .gt => orderCompare key attr lit .gt
    | .gtEq => orderCompare key attr lit .gtEq
    | .lt => orderCompare key attr lit .lt
    | .ltEq => orderCompare key attr lit .ltEq

/-- An unresolvable interpolated path is treated as an absent key. -/
def evalCondition (c : Condition) (bag : AttributeBag) : Except Unorderable Bool :=
  match c with
  | .isTrue key => .ok <| ((bag.resolveKey key).map fun k => (bag.getBool k).getD false).getD false
  | .isFalse key => .ok <| ((bag.resolveKey key).map fun k => !(bag.getBool k).getD false).getD true
  | .exists key => .ok <| ((bag.resolveKey key).map bag.contains).getD false
  | .comparison key op value =>
    match bag.resolveKey key with
    | some k => evalComparison k op value bag
    | none => .ok (op == .notEq)
  | .inSet valueKey setKey negate =>
    let inSet := match bag.resolveKey valueKey, bag.resolveKey setKey with
      | some vk, some sk =>
        match bag.getString vk, bag.getStringSet sk with
        | some s, some set => decide (s ∈ set)
        | _, _ => false
      | _, _ => false
    .ok (if negate then !inSet else inSet)

mutual

def evalExpression (bag : AttributeBag) : Expression → Except Unorderable Bool
  | .condition c => evalCondition c bag
  | .and parts => evalAnd bag parts none
  | .or parts => evalOr bag parts none
  | .not inner =>
    match evalExpression bag inner with
    | .ok b => .ok (!b)
    | .error err => .error err
  | .always => .ok true

/-- With the first error seen. -/
def evalAnd (bag : AttributeBag) : List Expression → Option Unorderable → Except Unorderable Bool
  | [], none => .ok true
  | [], some err => .error err
  | e :: es, pending =>
    match evalExpression bag e with
    | .ok false => .ok false
    | .ok true => evalAnd bag es pending
    | .error err => evalAnd bag es (pending.or (some err))

def evalOr (bag : AttributeBag) : List Expression → Option Unorderable → Except Unorderable Bool
  | [], none => .ok false
  | [], some err => .error err
  | e :: es, pending =>
    match evalExpression bag e with
    | .ok true => .ok true
    | .ok false => evalOr bag es pending
    | .error err => evalOr bag es (pending.or (some err))

end

/-- Other effects are skipped. -/
def firstDeny (source : String) : List Effect → Option Decision
  | [] => none
  | .deny reason code :: _ => some (.deny reason (code.getD source))
  | _ :: effects => firstDeny source effects

/-- The first deny wins, and an undecided condition denies. -/
def evaluateRules (rules : List Rule) (bag : AttributeBag) : Decision :=
  match rules with
  | [] => .allow
  | rule :: rules =>
    match evalExpression bag rule.condition with
    | .ok false => evaluateRules rules bag
    | .error err => .deny (some err.reason) rule.source
    | .ok true =>
      match firstDeny rule.source rule.effects with
      | some deny => deny
      | none => evaluateRules rules bag

section ThreeValued

def settled : Except Unorderable Bool → Truth
  | .ok b => some b
  | .error _ => none

omit [Library] in
@[simp] theorem settled_ok (b : Bool) : settled (.ok b) = some b := rfl

omit [Library] in
@[simp] theorem settled_error (err : Unorderable) : settled (.error err) = none := rfl

omit [Library] in
theorem settled_eq_some_iff {r : Except Unorderable Bool} {b : Bool} :
    settled r = some b ↔ r = .ok b := by
  cases r <;> simp

def truth (bag : AttributeBag) (e : Expression) : Truth := settled (evalExpression bag e)

private def pendingTruth : Option Unorderable → List Truth
  | none => []
  | some _ => [none]

omit [Library] in
private theorem mem_pendingTruth_or {pending : Option Unorderable} {err : Unorderable} {t : Truth} :
    t ∈ pendingTruth (pending.or (some err)) ↔ t ∈ pendingTruth pending ∨ t = none := by
  cases pending <;> simp [pendingTruth]

private theorem settled_evalAnd_pending (bag : AttributeBag) (parts : List Expression)
    (pending : Option Unorderable) :
    settled (evalAnd bag parts pending) =
      all (pendingTruth pending ++ parts.map (truth bag)) := by
  induction parts generalizing pending with
  | nil => cases pending <;> simp [evalAnd, pendingTruth, all]
  | cons e es ih =>
    have htruth : truth bag e = settled (evalExpression bag e) := rfl
    cases he : evalExpression bag e with
    | error err =>
      rw [evalAnd, he]
      simp only [ih, List.map_cons, htruth, he, settled_error]
      refine all_congr fun t => ?_
      simp only [List.mem_append, List.mem_cons, mem_pendingTruth_or, or_assoc]
    | ok b =>
      cases b with
      | false => simp [evalAnd, he, htruth, all]
      | true =>
        rw [evalAnd, he]
        simp only [ih, List.map_cons, htruth, he, settled_ok]
        simp [all]

private theorem settled_evalOr_pending (bag : AttributeBag) (parts : List Expression)
    (pending : Option Unorderable) :
    settled (evalOr bag parts pending) =
      any (pendingTruth pending ++ parts.map (truth bag)) := by
  induction parts generalizing pending with
  | nil => cases pending <;> simp [evalOr, pendingTruth, any]
  | cons e es ih =>
    have htruth : truth bag e = settled (evalExpression bag e) := rfl
    cases he : evalExpression bag e with
    | error err =>
      rw [evalOr, he]
      simp only [ih, List.map_cons, htruth, he, settled_error]
      refine any_congr fun t => ?_
      simp only [List.mem_append, List.mem_cons, mem_pendingTruth_or, or_assoc]
    | ok b =>
      cases b with
      | true => simp [evalOr, he, htruth, any]
      | false =>
        rw [evalOr, he]
        simp only [ih, List.map_cons, htruth, he, settled_ok]
        simp [any]

theorem truth_and (bag : AttributeBag) (parts : List Expression) :
    truth bag (.and parts) = all (parts.map (truth bag)) := by
  simpa [truth, evalExpression, pendingTruth] using settled_evalAnd_pending bag parts none

theorem truth_or (bag : AttributeBag) (parts : List Expression) :
    truth bag (.or parts) = any (parts.map (truth bag)) := by
  simpa [truth, evalExpression, pendingTruth] using settled_evalOr_pending bag parts none

theorem truth_not (bag : AttributeBag) (inner : Expression) :
    truth bag (.not inner) = KleeneLogic.not (truth bag inner) := by
  simp only [truth, evalExpression]
  cases evalExpression bag inner <;> rfl

end ThreeValued

end PraxisPolicy
