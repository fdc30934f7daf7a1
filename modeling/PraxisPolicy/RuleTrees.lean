import PraxisPolicy.Attributes

/-!
# The intermediate representation of a policy

Predicates, field pipelines, the steps that call out of the engine and the effect tree they are
arranged in.
-/

namespace PraxisPolicy

open BinaryFloats HashMaps JsonValues

inductive CompareOp where
  | eq | notEq | gt | gtEq | lt | ltEq | contains
  deriving DecidableEq, Repr

inductive Literal where
  | bool (b : Bool)
  | int (n : ℤ)
  | float (f : Float64)
  | string (s : String)
  deriving DecidableEq, Repr

inductive Condition where
  | comparison (key : String) (op : CompareOp) (value : Literal)
  | isTrue (key : String)
  | isFalse (key : String)
  | exists (key : String)
  | inSet (valueKey setKey : String) (negate : Bool)
  deriving DecidableEq, Repr

inductive Expression where
  | condition (c : Condition)
  | and (parts : List Expression)
  | or (parts : List Expression)
  | not (inner : Expression)
  | always

/-- Induction over an expression: the hypothesis holds of every operand. -/
theorem Expression.induction {motive : Expression → Prop}
    (condition : ∀ c, motive (.condition c))
    (and : ∀ parts, (∀ e ∈ parts, motive e) → motive (.and parts))
    (or : ∀ parts, (∀ e ∈ parts, motive e) → motive (.or parts))
    (not : ∀ inner, motive inner → motive (.not inner))
    (always : motive .always) (e : Expression) : motive e :=
  @Expression.rec motive (fun parts => ∀ e ∈ parts, motive e)
    condition and or not always
    (by simp) (fun _ _ h hs => List.forall_mem_cons.mpr ⟨h, hs⟩) e

/-- With the reason and the place in the policy of a deny. -/
inductive Decision where
  | allow
  | deny (reason : Option String) (ruleSource : String)
  deriving DecidableEq, Repr

inductive TypeCheck where
  | str | int | bool | float | email | url | uuid
  deriving DecidableEq, Repr

inductive TaintScope where
  | session | message
  deriving DecidableEq, Repr

inductive ScanKind where
  | piiRedact | piiDetect | injectionScan
  deriving DecidableEq, Repr

inductive Stage where
  | type (check : TypeCheck)
  | regex (pattern : String)
  | validate (name : String)
  | length (min max : Option ℕ)
  | range (min max : Option ℤ)
  | enum (values : List String)
  | mask (keepLast : ℕ)
  | redact (condition : Option Expression)
  | omit
  | hash
  | taint (label : String) (scopes : List TaintScope)
  | plugin (name : String)
  | scan (kind : ScanKind)

structure TaintEvent where
  label : String
  scopes : List TaintScope
  deriving DecidableEq, Repr

structure FieldRule where
  field : String
  stages : List Stage
  source : String

inductive OnEmpty where
  | deny | fallback
  deriving DecidableEq, Repr

structure CandidateConstraint where
  allowModels : Option (List String)
  denyModels : List String
  allowRegions : Option (List String)
  allowSites : Option (List String)
  maxCostTier : Option String
  custom : HashMap String String
  onEmpty : OnEmpty
  deriving DecidableEq

/-- Written out or read from the bag. -/
inductive StringSetSpec where
  | ref (path : String)
  | literal (values : List String)
  deriving DecidableEq, Repr

structure RestrictSpec where
  allowModels : Option StringSetSpec
  denyModels : Option StringSetSpec
  allowRegions : Option StringSetSpec
  allowSites : Option StringSetSpec
  maxCostTier : Option String
  custom : HashMap String String
  onEmpty : OnEmpty
  deriving DecidableEq

structure RestrictResolveError where
  field : String
  path : String
  deriving DecidableEq, Repr

/-- As the configuration hands it to plugins and engines. -/
inductive Yaml where
  | null
  | bool (b : Bool)
  | number (n : Number)
  | string (s : String)
  | sequence (items : List Yaml)
  | mapping (entries : List (Yaml × Yaml))
  | tagged (tag : String) (value : Yaml)

structure DelegateStep where
  pluginName : String
  configOverride : Option Yaml
  onError : Option String
  source : String

inductive ElicitKind where
  | approval | confirm | stepUp | attestation | info | review
  deriving DecidableEq, Repr

structure ElicitStep where
  kind : ElicitKind
  pluginName : String
  channel : Option String
  fromRef : String
  purpose : Option String
  scope : Option String
  timeout : Option String
  configOverride : Option Yaml
  onError : Option String
  source : String

inductive PdpDialect where
  | cedar | opa | authZen | neMo | cel
  | custom (name : String)
  deriving DecidableEq, Repr

structure PdpCall where
  dialect : PdpDialect
  args : Yaml

inductive Effect where
  | allow
  | deny (reason code : Option String)
  | plugin (name : String)
  | delegate (step : DelegateStep)
  | elicit (step : ElicitStep)
  | taint (label : String) (scopes : List TaintScope)
  | restrict (spec : RestrictSpec)
  | fieldOp (path : String) (stages : List Stage)
  | sequential (effects : List Effect)
  | parallel (effects : List Effect)
  | when (condition : Expression) (body : List Effect) (source : String)
  | pdp (call : PdpCall) (onAllow onDeny : List Effect)

namespace Effect

/-- Induction over an effect tree: the hypothesis holds of every child. -/
theorem induction {motive : Effect → Prop}
    (allow : motive .allow) (deny : ∀ r c, motive (.deny r c)) (plugin : ∀ n, motive (.plugin n))
    (delegate : ∀ s, motive (.delegate s)) (elicit : ∀ s, motive (.elicit s))
    (taint : ∀ l s, motive (.taint l s)) (restrict : ∀ s, motive (.restrict s))
    (fieldOp : ∀ p s, motive (.fieldOp p s))
    (sequential : ∀ es, (∀ e ∈ es, motive e) → motive (.sequential es))
    (parallel : ∀ es, (∀ e ∈ es, motive e) → motive (.parallel es))
    (when : ∀ c body src, (∀ e ∈ body, motive e) → motive (.when c body src))
    (pdp : ∀ call onAllow onDeny, (∀ e ∈ onAllow, motive e) → (∀ e ∈ onDeny, motive e) →
      motive (.pdp call onAllow onDeny)) (e : Effect) : motive e :=
  @Effect.rec motive (fun es => ∀ e ∈ es, motive e)
    allow deny plugin delegate elicit taint restrict fieldOp sequential parallel when pdp
    (by simp) (fun _ _ h hs => List.forall_mem_cons.mpr ⟨h, hs⟩) e

mutual

def containsMutation : Effect → Bool
  | .fieldOp _ _ | .delegate _ | .elicit _ => true
  | .sequential effects | .parallel effects => anyContainsMutation effects
  | .when _ body _ => anyContainsMutation body
  | .pdp _ onAllow onDeny => anyContainsMutation onAllow || anyContainsMutation onDeny
  | .allow | .deny _ _ | .plugin _ | .taint _ _ | .restrict _ => false

def anyContainsMutation : List Effect → Bool
  | [] => false
  | e :: es => e.containsMutation || anyContainsMutation es

end

mutual

/-- The error is the offending effect, which the source prints in its message. -/
def validateParallelPurity : Effect → Except Effect Unit
  | .parallel effects => validateBranches effects
  | .sequential effects => validateEach effects
  | .when _ body _ => validateEach body
  | .pdp _ onAllow onDeny =>
    match validateEach onAllow with
    | .ok () => validateEach onDeny
    | .error e => .error e
  | _ => .ok ()

/-- No mutation, and pure further down. -/
def validateBranches : List Effect → Except Effect Unit
  | [] => .ok ()
  | e :: es =>
    if e.containsMutation then .error e
    else match e.validateParallelPurity with
      | .ok () => validateBranches es
      | .error e => .error e

def validateEach : List Effect → Except Effect Unit
  | [] => .ok ()
  | e :: es =>
    match e.validateParallelPurity with
    | .ok () => validateEach es
    | .error e => .error e

end

variable {es : List Effect}

theorem anyContainsMutation_eq_false :
    anyContainsMutation es = false ↔ ∀ e ∈ es, e.containsMutation = false := by
  induction es with
  | nil => simp [anyContainsMutation]
  | cons e es ih => simp [anyContainsMutation, ih]

theorem validateEach_ok_iff :
    validateEach es = .ok () ↔ ∀ e ∈ es, e.validateParallelPurity = .ok () := by
  induction es with
  | nil => simp [validateEach]
  | cons e es ih =>
    rw [validateEach, List.forall_mem_cons, ← ih]
    cases e.validateParallelPurity <;> simp

theorem validateBranches_ok_iff :
    validateBranches es = .ok () ↔
      ∀ e ∈ es, e.containsMutation = false ∧ e.validateParallelPurity = .ok () := by
  induction es with
  | nil => simp [validateBranches]
  | cons e es ih =>
    rw [validateBranches, List.forall_mem_cons, ← ih]
    cases e.containsMutation <;> cases e.validateParallelPurity <;> simp

theorem validateParallelPurity_pdp_ok_iff {call : PdpCall} {onAllow onDeny : List Effect} :
    (Effect.pdp call onAllow onDeny).validateParallelPurity = .ok () ↔
      (∀ e ∈ onAllow, e.validateParallelPurity = .ok ()) ∧
        ∀ e ∈ onDeny, e.validateParallelPurity = .ok () := by
  rw [← validateEach_ok_iff, ← validateEach_ok_iff, validateParallelPurity]
  cases validateEach onAllow <;> simp

end Effect

structure Rule where
  condition : Expression
  effects : List Effect
  source : String

structure CompiledRoute where
  routeKey : String
  args : List FieldRule
  preInvocation : List Effect
  result : List FieldRule
  postInvocation : List Effect

end PraxisPolicy
