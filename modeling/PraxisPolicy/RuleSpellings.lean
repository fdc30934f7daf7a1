import PraxisPolicy.AcceptedTrees
import PraxisPolicy.RuleRoundTrip

/-!
# The three spellings of a rule

A rule is written as a line, as a map with `when:` and `do:`, or as a map from the predicate to its
effects.  The maps read their action as an effect, the line as a control action.
-/

namespace PraxisPolicy

open TextScanning

section Lines

variable {cs : List Char} {blank : List Char}

theorem trimChars_blank_append (h : ∀ c ∈ blank, isWhitespace c = true) :
    trimChars (blank ++ cs) = trimChars cs := by
  rw [trimChars, List.dropWhile_append_of_pos h, trimChars]

theorem exists_trimmed_line (p a : List Char) :
    ∃ lead, (∀ c ∈ lead, isWhitespace c = true) ∧
      trimChars (p ++ ':' :: ' ' :: a) =
        p.dropWhile isWhitespace ++ ':' :: (lead ++ trimChars a) := by
  rw [trimChars_visible (by decide)]
  rcases blank_or_visible a with hblank | ⟨lead, c, rest, rfl, hlead, hc⟩
  · have hall : ∀ d ∈ (' ' :: a).reverse, isWhitespace d = true := by
      simp only [List.mem_reverse]
      exact List.forall_mem_cons.2 ⟨by decide, hblank⟩
    refine ⟨[], fun c hc => absurd hc List.not_mem_nil, ?_⟩
    rw [List.dropWhile_eq_nil_iff.2 hall, trimChars_eq_nil_iff.2 hblank]
    rfl
  · have hvisible : StartsVisible (c :: (' ' :: lead).reverse) := ⟨c, _, rfl, hc⟩
    refine ⟨' ' :: lead, List.forall_mem_cons.2 ⟨by decide, hlead⟩, ?_⟩
    rw [trimChars_lead hlead hc, ← List.cons_append, List.reverse_append, List.reverse_cons,
      List.append_assoc, List.singleton_append, hvisible.dropWhile_append]
    simp

end Lines

section Colons

variable {ps inside after : List Piece}

theorem lastColon_cons_eq_none {p : Piece} {parens brackets : ℤ} (hp : p = .plain ':' → parens ≠ 0)
    (h : ∀ parens' brackets', (p = .plain '(' → parens' = parens + 1) →
      (p = .plain ')' → parens' = parens - 1) →
      (p ≠ .plain '(' → p ≠ .plain ')' → parens' = parens) → lastColon parens' brackets' ps = none) :
    lastColon parens brackets (p :: ps) = none := by
  cases p with
  | broken => rfl
  | literal text =>
    rw [lastColon, h parens brackets (by simp) (by simp) (by simp)]
    rfl
  | plain c =>
    have hrest := h (if c = '(' then parens + 1 else if c = ')' then parens - 1 else parens)
      (if c = '[' then brackets + 1 else if c = ']' then brackets - 1 else brackets)
      (by simp +contextual) (by simp +contextual) (by simp +contextual)
    rw [lastColon, hrest]
    dsimp only
    rw [if_neg]
    rintro ⟨rfl, hparens, -⟩
    exact hp rfl hparens

theorem lastColon_blank (h : ∀ c ∈ textOf ps, isWhitespace c = true) (parens brackets : ℤ) :
    lastColon parens brackets ps = none := by
  induction ps generalizing parens brackets with
  | nil => rfl
  | cons p ps ih =>
    rw [textOf_cons, List.forall_mem_append] at h
    refine lastColon_cons_eq_none ?_ fun parens' brackets' _ _ _ => ih h.2 parens' brackets'
    rintro rfl
    exact absurd (h.1 ':' (by simp [Piece.text])) (by decide)

theorem lastColon_of_closingParen {depth : ℤ} (hdepth : 0 < depth)
    (h : closingParen depth ps = some (inside, after)) (hafter : trimChars (textOf after) = [])
    (brackets : ℤ) : lastColon depth brackets ps = none := by
  induction ps generalizing depth brackets inside with
  | nil => cases h
  | cons p ps ih =>
    rw [closingParen] at h
    refine lastColon_cons_eq_none (fun _ => hdepth.ne') fun parens' brackets' hopen hclose hkeep => ?_
    by_cases hend : p = .plain ')' ∧ depth = 1
    · rw [if_pos hend] at h
      cases h
      exact lastColon_blank (trimChars_eq_nil_iff.1 hafter) _ _
    · rw [if_neg hend] at h
      obtain ⟨cut, hcut, heq⟩ := Option.map_eq_some_iff.1 h
      have hsame : parens' =
          if p = .plain '(' then depth + 1 else if p = .plain ')' then depth - 1 else depth := by
        split_ifs with hl hr
        · exact hopen hl
        · exact hclose hr
        · exact hkeep hl hr
      have hpos : 0 < parens' := by
        rw [hsame]
        split_ifs with hl hr
        · omega
        · have := mt (And.intro hr) hend
          omega
        · exact hdepth
      obtain ⟨-, hsnd⟩ := Prod.mk.inj heq
      rw [← hsame] at hcut
      exact ih hpos (hcut.trans (by rw [← hsnd])) brackets'

end Colons

section Actions

/-- The actions that a line may carry: `allow`, `deny` or a call of `deny`. -/
def isControlAction (action : String) : Bool :=
  (tryBareAction action.toList).isSome || startsWith (trimChars action.toList) "deny("

theorem tryBareAction_trimChars (src : List Char) :
    tryBareAction (trimChars src) = tryBareAction src := by
  rw [tryBareAction, tryBareAction, trimChars_trimChars]

variable {effects : List Effect}

theorem tryBareAction_eq_some {src : List Char} (h : tryBareAction src = some effects) :
    (trimChars src = "deny".toList ∨ trimChars src = "allow".toList) ∧
      ∃ effect, effects = [effect] := by
  rw [tryBareAction] at h
  split at h
  · rename_i hdeny
    cases h
    exact ⟨.inl (by rw [← hdeny, String.toList_ofList]), _, rfl⟩
  · rename_i hallow
    cases h
    exact ⟨.inr (by rw [← hallow, String.toList_ofList]), _, rfl⟩
  · cases h

theorem tryParseDenyCall_toOption (src : List Char) (rule rule' : String) :
    (tryParseDenyCall src rule).toOption = (tryParseDenyCall src rule').toOption := by
  have harg : ∀ part, (denyArg rule part).toOption = (denyArg rule' part).toOption := by
    intro part
    cases part with
    | none => rfl
    | some part =>
      simp only [denyArg, stripStringLiteral]
      rcases readWholeLiteral (trimChars (trimChars part)) with err | _ | value <;> rfl
  rw [tryParseDenyCall, tryParseDenyCall]
  split_ifs
  swap
  · rfl
  cases extractCallArgs src "deny".toList with
  | none => rfl
  | some inside =>
    dsimp only
    cases splitTopLevelCommas inside with
    | error msg => rfl
    | ok parts =>
      dsimp only
      have hreason := harg parts[0]?
      have hcode := harg parts[1]?
      generalize denyArg rule parts[0]? = reason, denyArg rule' parts[0]? = reason' at hreason ⊢
      generalize denyArg rule parts[1]? = code, denyArg rule' parts[1]? = code' at hcode ⊢
      cases reason <;> cases reason' <;> cases hreason
      · rfl
      cases code <;> cases code' <;> cases hcode
      · rfl
      dsimp only
      split_ifs <;> rfl

theorem tryParseDenyCall_eq_none_iff {src : List Char} {rule : String} :
    tryParseDenyCall src rule = .ok none ↔ startsWith src "deny(" = false := by
  rw [tryParseDenyCall]
  constructor
  · intro h
    by_contra hstarts
    rw [if_pos (by simpa using hstarts)] at h
    repeat' split at h
    all_goals cases h
  · intro h
    rw [h, if_neg Bool.false_ne_true]

theorem lastColon_of_tryParseDenyCall {src : List Char} {rule : String} {effect : Effect}
    (h : tryParseDenyCall (trimChars src) rule = .ok (some effect)) :
    lastColon 0 0 (pieces (trimChars src)) = none := by
  rw [tryParseDenyCall] at h
  split_ifs at h with hstarts
  swap
  · cases h
  split at h
  · cases h
  rename_i inside hinside
  obtain ⟨tail, htail⟩ := List.isPrefixOf_iff_prefix.1 hstarts
  have hsrc : trimChars src = "deny".toList ++ '(' :: tail := by simpa using htail.symm
  have hcall : extractCallArgs (trimChars src) "deny".toList =
      (callArgs (.plain '(' :: pieces tail)).map textOf := by
    rw [extractCallArgs, trimChars_trimChars, hsrc]
    dsimp only
    rw [if_pos (List.isPrefixOf_iff_prefix.2 (List.prefix_append _ _)), List.drop_left,
      if_pos List.head?_cons, pieces_plain (by decide)]
  obtain ⟨args, hargs, -⟩ := Option.map_eq_some_iff.1 (hcall.symm.trans hinside)
  rw [callArgs, closingParen, if_neg (by decide), if_pos rfl] at hargs
  split at hargs
  swap
  · cases hargs
  rename_i before after hcut
  split_ifs at hargs with hafter
  obtain ⟨cut, hclose, heq⟩ := Option.map_eq_some_iff.1 hcut
  obtain ⟨-, rfl⟩ := Prod.mk.inj heq
  have hname : Walks "deny".toList _ := walks_plain (List.forall_iff_forall_mem.1 (by decide))
  rw [hsrc, hname.walk, lastColon_append hname.noColon hname.noBroken, pieces_plain (by decide),
    Option.map_eq_none_iff, sumOf_plain (List.forall_iff_forall_mem.1 (by decide)),
    sumOf_plain (List.forall_iff_forall_mem.1 (by decide))]
  refine lastColon_cons_eq_none (by simp) fun parens brackets hopen _ _ => ?_
  rw [hopen rfl]
  exact lastColon_of_closingParen (by decide) hclose hafter brackets

theorem parseAction_eq_error (rule : String) {action : String} (h : isControlAction action = false) :
    ∃ err, parseAction (trimChars action.toList) rule = .error err := by
  rw [isControlAction, Bool.or_eq_false_iff, Option.isSome_eq_false_iff, Option.isNone_iff_eq_none] at h
  rw [parseAction, tryBareAction_trimChars, h.1, trimChars_trimChars,
    tryParseDenyCall_eq_none_iff.2 h.2]
  exact ⟨_, rfl⟩

theorem lastColon_of_parseAction {action rule : String}
    (h : parseAction (trimChars action.toList) rule = .ok effects) :
    lastColon 0 0 (pieces (trimChars action.toList)) = none := by
  rw [parseAction, tryBareAction_trimChars, trimChars_trimChars] at h
  split at h
  · rename_i hbare
    have hword : ∀ {word : List Char}, word.Forall (fun c => isQuote c = false ∧ c ≠ ':') →
        lastColon 0 0 (pieces word) = none := fun h =>
      lastColon_eq_none (walks_plain (List.forall_iff_forall_mem.1 h)) 0 0
    rcases (tryBareAction_eq_some hbare).1 with hdeny | hallow
    · rw [hdeny]
      exact hword (by decide)
    · rw [hallow]
      exact hword (by decide)
  · split at h
    · cases h
    · rename_i hdeny
      exact lastColon_of_tryParseDenyCall hdeny
    · cases h

variable [Library] [FloatText] [PolicyText]

theorem parseAction_toOption (rule source : String) {action : String}
    (h : isControlAction action = true) :
    (parseAction (trimChars action.toList) rule).toOption =
      (parseEffectString action source).toOption.map ([·]) := by
  rw [parseAction, parseEffectString, tryBareAction_trimChars, trimChars_trimChars]
  cases hbare : tryBareAction action.toList with
  | some effects =>
    obtain ⟨-, effect, rfl⟩ := tryBareAction_eq_some hbare
    rfl
  | none =>
    have hdeny : startsWith (trimChars action.toList) "deny(" = true := by
      simpa [isControlAction, hbare] using h
    have hsame := tryParseDenyCall_toOption (trimChars action.toList) rule action
    have hcall : ∀ r, tryParseDenyCall (trimChars action.toList) r ≠ .ok none := by
      intro r hr
      rw [tryParseDenyCall_eq_none_iff, hdeny] at hr
      cases hr
    have hrule := hcall rule
    have haction := hcall action
    generalize tryParseDenyCall (trimChars action.toList) rule = r at hsame hrule
    generalize tryParseDenyCall (trimChars action.toList) action = r' at hsame haction
    rcases r with err | _ | effect <;> rcases r' with err' | _ | effect'
    all_goals first
      | exact absurd rfl hrule
      | exact absurd rfl haction
      | cases hsame
    · rfl
    · rfl

end Actions

section Trimmed

theorem isRequireForm_trimChars (predicate : List Char) :
    isRequireForm (trimChars predicate) = isRequireForm predicate := by
  rw [isRequireForm, isRequireForm, trimChars_trimChars]

variable [Library] [FloatText]

theorem fieldOperation_trimChars (predicate : List Char) :
    fieldOperationInRulePosition (trimChars predicate) = fieldOperationInRulePosition predicate := by
  rw [fieldOperationInRulePosition, fieldOperationInRulePosition, trimChars_trimChars]

theorem parsePredicate_trim (p : String) : parsePredicate (trim p) = parsePredicate p := by
  rw [parsePredicate, parsePredicate, toList_trim, trimChars_trimChars]

end Trimmed

section Outcomes

/-- A step is refused, or compiles to a node with the given condition and body. -/
inductive ComesTo (step : Except ParseError PolicyStep) : Option (Expression × List Effect) → Prop
  | refused {err : ParseError} (h : step = .error err) : ComesTo step none
  | rule {condition : Expression} {body : List Effect} {source : String}
      (h : step.map stepToTopLevelEffect = .ok (.when condition body source)) :
      ComesTo step (some (condition, body))

theorem rejectRequireWithAllow_singleton (predicate : List Char) (effect : Effect) (rule : String) :
    (isRequireForm predicate && effect.isAllow) = true ∧
        (∃ err, rejectRequireWithAllow predicate [effect] rule = .error err) ∨
      (isRequireForm predicate && effect.isAllow) = false ∧
        rejectRequireWithAllow predicate [effect] rule = .ok () := by
  rw [rejectRequireWithAllow, List.any_cons, List.any_nil, Bool.or_false]
  cases isRequireForm predicate && effect.isAllow with
  | true => exact .inl ⟨rfl, _, rfl⟩
  | false => exact .inr ⟨rfl, rfl⟩

variable [Library] [FloatText] {p : String} {e : Expression}

def lineRule (predicate action : List Char) (rule source : String) : Except ParseError Rule :=
  match parseAction action rule with
  | .ok effects => guardedRule predicate effects rule source
  | .error err => .error err

variable [PolicyText]

/-- `none` where it is refused. -/
def spelledRule (predicate : String) (condition : Expression) (action source : String) :
    Option (Expression × List Effect) :=
  match parseEffectString action source with
  | .error _ => none
  | .ok effect =>
    if (fieldOperationInRulePosition predicate.toList).isSome ||
        (isRequireForm predicate.toList && effect.isAllow) then none
    else some (condition, [effect])

theorem spelledRule_trim (action source : String) :
    spelledRule (trim p) e action source = spelledRule p e action source := by
  rw [spelledRule, spelledRule, toList_trim, fieldOperation_trimChars, isRequireForm_trimChars]

theorem comesTo_rule (hp : parsePredicate p = .ok e) (rule shown missing action source : String) :
    ComesTo (do
      let condition ← ruleCondition p rule
      let effect ← parseEffectString action source
      ruleWithEffects condition p rule shown missing source [effect])
      (spelledRule p e action source) := by
  rw [ruleCondition, rejectFieldOperationInRulePosition]
  cases hfield : fieldOperationInRulePosition p.toList with
  | some field =>
    rw [spelledRule, hfield]
    cases parseEffectString action source <;> exact .refused rfl
  | none =>
    rw [spelledRule, hfield, hp]
    cases parseEffectString action source with
    | error err => exact .refused rfl
    | ok effect =>
      dsimp only [bind, Except.bind, ruleWithEffects]
      rcases rejectRequireWithAllow_singleton p.toList effect rule with
        ⟨hguard, err, herr⟩ | ⟨hguard, hok⟩
      · rw [hguard, herr]
        exact .refused rfl
      · rw [hguard, hok]
        exact .rule rfl

theorem comesTo_controlAction (hp : parsePredicate p = .ok e) {action : String}
    (hcontrol : isControlAction action = true) (rule source : String) :
    ComesTo ((lineRule (trimChars p.toList) (trimChars action.toList) rule source).map .rule)
      (spelledRule p e action source) := by
  have haction := parseAction_toOption rule source hcontrol
  rw [spelledRule, lineRule]
  generalize parseAction (trimChars action.toList) rule = parsed at haction ⊢
  generalize parseEffectString action source = effect at haction ⊢
  cases effect with
  | error err =>
    cases parsed with
    | error err => exact .refused rfl
    | ok effects => cases haction
  | ok effect =>
    cases parsed with
    | error err => cases haction
    | ok effects =>
      obtain rfl : effects = [effect] := Option.some.inj haction
      have htrim : parsePredicate (String.ofList (trimChars p.toList)) = .ok e :=
        (parsePredicate_trim p).trans hp
      have hguard := rejectRequireWithAllow_singleton (trimChars p.toList) effect rule
      rw [isRequireForm_trimChars] at hguard
      dsimp only
      rw [guardedRule, rejectFieldOperationInRulePosition, fieldOperation_trimChars, htrim]
      cases fieldOperationInRulePosition p.toList with
      | some field => exact .refused rfl
      | none =>
        rcases hguard with ⟨hguard, err, herr⟩ | ⟨hguard, hok⟩
        · rw [hguard, herr]
          exact .refused rfl
        · rw [hguard, hok]
          exact .rule rfl

theorem spelledRule_of_colon {action source : String} (hcontrol : isControlAction action = true)
    (hcolon : lastColon 0 0 (pieces (trimChars action.toList)) ≠ none) :
    spelledRule p e action source = none := by
  have haction := parseAction_toOption action source hcontrol
  rw [spelledRule]
  cases heffect : parseEffectString action source with
  | error err => rfl
  | ok effect =>
    rw [heffect] at haction
    cases hparsed : parseAction (trimChars action.toList) action with
    | error err =>
      rw [hparsed] at haction
      cases haction
    | ok effects => exact absurd (lastColon_of_parseAction hparsed) hcolon

theorem comesTo_whenDo (hp : parsePredicate p = .ok e) {m : List (Yaml × Yaml)}
    (action source : String)
    (hm : m = [(.string "when", .string p), (.string "do", .string action)] ∨
      m = [(.string "do", .string action), (.string "when", .string p)]) :
    ComesTo (parseStep (.mapping m) source) (spelledRule p e action source) := by
  have hwhen : Yaml.stringEntry "when" m = some (.string p) := by
    rcases hm with rfl | rfl <;> simp [Yaml.stringEntry]
  have hdo : Yaml.stringEntry "do" m = some (.string action) := by
    rcases hm with rfl | rfl <;> simp [Yaml.stringEntry]
  have hkeys : unexpectedKey m = none := by
    rcases hm with rfl | rfl <;> simp [unexpectedKey, Yaml.asStr, Yaml.untag]
  have hcondition : whenCondition m = (do return (p, ← ruleCondition p ("when: " ++ p))) := by
    rw [whenCondition, hkeys, hwhen]
    rfl
  have hstep : parseStep (.mapping m) source = (do
      let condition ← ruleCondition p ("when: " ++ p)
      let effect ← parseEffectString action source
      ruleWithEffects condition p ("when: " ++ p) (PolicyText.debugYaml (.mapping m))
        "`do:` produced no effects" source [effect]) := by
    rw [parseStep, parseStepMap.eq_def, hasKey, hasKey, hwhen, hdo]
    simp only [Option.isSome_some, Bool.and_self, if_true]
    rw [parseWhenDoRule, hcondition]
    cases ruleCondition p ("when: " ++ p) with
    | error err => rfl
    | ok condition =>
      dsimp only [bind, Except.bind, pure, Except.pure]
      split
      · rename_i hnone
        rw [hdo] at hnone
        cases hnone
      · rename_i value hvalue
        obtain rfl := Option.some.inj (hdo.symm.trans hvalue)
        rw [parseDoBody]
        cases parseEffectString action source <;> rfl
  rw [hstep]
  exact comesTo_rule hp _ _ _ action source

theorem comesTo_shorthand (hp : parsePredicate p = .ok e) (hkey : isShorthandKey (trim p) = true)
    (action source : String) :
    ComesTo (parseStep (.mapping [(.string p, .sequence [.string action])]) source)
      (spelledRule p e action source) := by
  have hstep : parseStep (.mapping [(.string p, .sequence [.string action])]) source = (do
      let condition ← ruleCondition (trim p) (trim p)
      let effect ← parseEffectString action source
      ruleWithEffects condition (trim p) (trim p) (trim p)
        "shorthand multi-effect map produced no effects" source [effect]) := by
    have hboth : (hasKey [(.string p, .sequence [.string action])] "when" &&
        hasKey [(.string p, .sequence [.string action])] "do") = false := by
      by_cases hwhen : p = "when"
      · subst hwhen
        simp [hasKey, Yaml.stringEntry]
      · simp [hasKey, Yaml.stringEntry, hwhen]
    have heffects : parseEffectValues [.string action] source = (do
        return [← parseEffectString action source]) := by
      rw [parseEffectValues, parseEffectValue, parseEffectValues]
      cases parseEffectString action source <;> rfl
    rw [parseStep, parseStepMap, hboth, if_neg Bool.false_ne_true]
    have hstr : (Yaml.string p).asStr = some p := by simp [Yaml.asStr, Yaml.untag]
    rw [hstr]
    dsimp only
    rw [parseKeyedStep, if_pos hkey, parseShorthandMultiEffect, heffects]
    cases ruleCondition (trim p) (trim p) <;> cases parseEffectString action source <;> rfl
  rw [hstep, ← spelledRule_trim]
  exact comesTo_rule ((parsePredicate_trim p).trans hp) _ _ _ action source

end Outcomes

section Cut

variable {left : List Char}

variable [Library] [FloatText]

theorem parsePredicate_colon (h : Weighs (left.dropWhile isWhitespace) 0) (right : List Char) :
    ∃ err, parsePredicate (String.ofList (trimChars (left ++ ':' :: right))) = .error err := by
  cases hp : parsePredicate (String.ofList (trimChars (left ++ ':' :: right))) with
  | error err => exact ⟨err, rfl⟩
  | ok e =>
    have hrest := trimChars_visible (c := ':') (by decide) left right
    have hvisible : ∀ rest, StartsVisible (':' :: rest) := fun _ => ⟨':', _, rfl, by decide⟩
    obtain ⟨qs, hwalk, -⟩ := weighs_of_parsePredicate hp
    rw [String.toList_ofList, hrest, (hvisible _).dropWhile_append,
      List.dropWhile_idempotent] at hwalk
    obtain ⟨ps, hleft, -⟩ := h
    generalize (right.reverse.dropWhile isWhitespace).reverse = rest at hwalk
    have hpieces : qs = ps ++ .plain ':' :: pieces rest := by
      have hall := hwalk.walk []
      rw [List.append_nil, hleft.walk, pieces_plain (by decide), pieces_nil, List.append_nil] at hall
      exact hall.symm
    exact absurd (by rw [hpieces]; simp) hwalk.noColon

theorem refused_of_colon {p : String} {e : Expression} (hp : parsePredicate p = .ok e)
    (text action : List Char)
    (rule source : String) :
    ∃ err, lineRule (trimChars (p.toList.dropWhile isWhitespace ++ ':' :: text)) action rule source =
      .error err := by
  have hweighs : Weighs ((p.toList.dropWhile isWhitespace).dropWhile isWhitespace) 0 := by
    rw [List.dropWhile_idempotent]
    exact weighs_of_parsePredicate hp
  obtain ⟨err, herr⟩ := parsePredicate_colon hweighs text
  rw [lineRule]
  cases parseAction action rule with
  | error err => exact ⟨err, rfl⟩
  | ok effects =>
    dsimp only
    rw [guardedRule, herr]
    cases rejectFieldOperationInRulePosition _ rule with
    | error err => exact ⟨err, rfl⟩
    | ok _ =>
      cases rejectRequireWithAllow _ effects rule with
      | error err => exact ⟨err, rfl⟩
      | ok _ => exact ⟨_, rfl⟩

end Cut

section Spellings

def reservedStepKeys : List String :=
  ["delegate", "sequential", "parallel", "cedar", "opa", "authzen", "nemo", "cel", "pdp"]

theorem exists_callStart {start : String}
    (h : start = "delegate(" ∨ start ∈ elicitVerbs.map (·.1 ++ "(")) :
    ∃ name, StepStart start.toList name '(' := by
  refine ⟨start.toList.dropLast, ?_⟩
  simp only [elicitVerbs, List.map_cons, List.map_nil, List.mem_cons, List.not_mem_nil, or_false] at h
  rcases h with rfl | rfl | rfl | rfl | rfl | rfl | rfl
  all_goals
    exact ⟨rfl, .mk (by decide) (List.forall_iff_forall_mem.1 (by decide)), by decide, .inl rfl⟩

theorem stepName_ne {p : String} (hkey : trim p ∉ reservedStepKeys) :
    String.ofList (p.toList.dropWhile isWhitespace) ∉ ["cel", "cedar", "sequential", "parallel"] := by
  intro hmem
  have htrim : ∀ name ∈ ["cel", "cedar", "sequential", "parallel"],
      trim name = name ∧ name ∈ reservedStepKeys := by decide
  obtain ⟨hname, hreserved⟩ := htrim _ hmem
  refine hkey ?_
  have hp : trim p = trim (String.ofList (p.toList.dropWhile isWhitespace)) := by
    rw [← String.toList_inj, toList_trim, toList_trim, String.toList_ofList, trimChars_dropWhile]
  rw [hp, hname]
  exact hreserved

theorem lead_of_isWhitespace {c : Char} (h : isWhitespace c = true) :
    lead c = .other ∧ isSegmentChar c = false ∧ c ≠ '.' ∧ c ≠ '[' := by
  have hall : ∀ n ∈ List.range' 9 5 ++ List.range' 0x2000 11 ++
      [0x20, 0x85, 0xA0, 0x1680, 0x2028, 0x2029, 0x202F, 0x205F, 0x3000],
      lead (Char.ofNat n) = .other ∧ isSegmentChar (Char.ofNat n) = false ∧
        Char.ofNat n ≠ '.' ∧ Char.ofNat n ≠ '[' := by
    decide
  have hmem : c.toNat ∈ List.range' 9 5 ++ List.range' 0x2000 11 ++
      [0x20, 0x85, 0xA0, 0x1680, 0x2028, 0x2029, 0x202F, 0x205F, 0x3000] := by
    simp only [isWhitespace, Bool.or_eq_true, Bool.and_eq_true, decide_eq_true_eq, beq_iff_eq] at h
    simp only [List.mem_append, List.mem_range'_1, List.mem_cons, List.not_mem_nil, or_false]
    omega
  have hchar := hall _ hmem
  rwa [Char.ofNat_toNat] at hchar

theorem mem_of_isKnownPdpDialect {key : String} (h : isKnownPdpDialect key = true) :
    trim (String.ofList (key.toList.takeWhile (· ≠ '('))) ∈
      ["cedar", "opa", "authzen", "nemo", "cel", "pdp"] := by
  rw [isKnownPdpDialect] at h
  generalize trim (String.ofList (key.toList.takeWhile (· ≠ '('))) = base at h ⊢
  rcases Bool.or_eq_true_iff.1 h with h | h
  · simp [of_decide_eq_true h]
  · unfold PdpDialect.fromBuiltinKey at h
    split at h
    · simp
    · simp
    · simp
    · simp
    · simp
    · cases h

section Keys

variable [Library] {toks : List Tok}

theorem Lexes.of_blank {blank rest : List Char} (hblank : ∀ c ∈ blank, isWhitespace c = true)
    (h : Lexes AcceptedPath (blank ++ rest) toks) : Lexes AcceptedPath rest toks := by
  induction blank with
  | nil => exact h
  | cons c blank ih =>
    obtain ⟨hc, hblank⟩ := List.forall_mem_cons.1 hblank
    generalize hsrc : c :: blank ++ rest = src at h
    cases h with
    | nil => cases hsrc
    | blank _ h =>
      obtain ⟨-, rfl⟩ := List.cons.inj hsrc
      exact ih hblank h
    | token htoken _ =>
      obtain ⟨d, ds, rfl, hproduction⟩ := htoken.shape.exists_lead
      obtain ⟨rfl, -⟩ := List.cons.inj hsrc
      rw [(lead_of_isWhitespace hc).1] at hproduction
      exact hproduction.elim

variable [FloatText] {p : String} {e : Expression}

theorem trimChars_takeWhile_ne (hp : parsePredicate p = .ok e) (hopen : '(' ∈ trimChars p.toList)
    {name : List Char} (hsegment : IsSegment name)
    (hreserved : ∀ word ∈ reservedWords, word.1.toList ≠ name) :
    trimChars ((trimChars p.toList).takeWhile (· ≠ '(')) ≠ name := by
  intro hname
  obtain ⟨toks, hlexes, hderives⟩ := (parsePredicate_eq_ok_iff p e).1 hp
  generalize trimChars p.toList = text at hopen hname hlexes
  obtain ⟨blank, hhead, hblank⟩ := exists_trailing (text.takeWhile (· ≠ '('))
  obtain ⟨rest, hrest⟩ : ∃ rest, text.dropWhile (· ≠ '(') = '(' :: rest := by
    have hfirst := List.head?_dropWhile_not (fun c => decide (c ≠ '(')) text
    cases hdrop : text.dropWhile (· ≠ '(') with
    | nil => exact absurd (List.dropWhile_eq_nil_iff.1 hdrop '(' hopen) (by decide)
    | cons c rest =>
      rw [hdrop] at hfirst
      obtain rfl : c = '(' := by simpa using hfirst
      exact ⟨rest, rfl⟩
  have htext : text = (text.takeWhile (· ≠ '(')).takeWhile isWhitespace ++
      (name ++ (blank ++ '(' :: rest)) := by
    conv_lhs => rw [← List.takeWhile_append_dropWhile (p := fun c => decide (c ≠ '(')) (l := text),
      ← List.takeWhile_append_dropWhile (p := isWhitespace) (l := text.takeWhile (· ≠ '('))]
    rw [hhead, hname, hrest, List.append_assoc, List.append_assoc]
  rw [htext] at hlexes
  have hstops : PathStops name (blank ++ '(' :: rest) := by
    intro c hc
    cases blank with
    | nil =>
      cases hc
      exact ⟨by decide, .inr (by decide)⟩
    | cons d blank =>
      cases hc
      obtain ⟨-, hsegment, hdot, hbracket⟩ := lead_of_isWhitespace (hblank c List.mem_cons_self)
      exact ⟨hdot, .inr ⟨hsegment, hbracket⟩⟩
  have hlexes := hlexes.of_blank fun c hc => List.mem_takeWhile_imp hc
  obtain ⟨more, rfl, hmore⟩ := hlexes.of_name hsegment hreserved hstops
  obtain ⟨more, rfl⟩ := (hmore.of_blank hblank).of_lParen
  exact parseTokens_call (parseTokens_eq_ok_iff.2 hderives)

theorem isShorthandKey_of_parsePredicate (hp : parsePredicate p = .ok e)
    (hkey : trim p ∉ reservedStepKeys) : isShorthandKey (trim p) = true := by
  have hpoint : isKnownPdpDialect (trim p) = false := by
    by_contra hknown
    have hmem := mem_of_isKnownPdpDialect (by simpa using hknown)
    rw [toList_trim] at hmem
    by_cases hopen : '(' ∈ trimChars p.toList
    · have hsegment : ∀ name ∈ ["cedar", "opa", "authzen", "nemo", "cel", "pdp"],
          IsSegment name.toList ∧ ∀ word ∈ reservedWords, word.1.toList ≠ name.toList := by
        simp only [List.forall_mem_cons]
        refine ⟨?_, ?_, ?_, ?_, ?_, ?_, nofun⟩
        all_goals exact ⟨.mk (by decide) (List.forall_iff_forall_mem.1 (by decide)), by decide⟩
      obtain ⟨hsegment, hreserved⟩ := hsegment _ hmem
      refine trimChars_takeWhile_ne hp hopen hsegment hreserved ?_
      rw [toList_trim, String.toList_ofList]
    · have hall : (trimChars p.toList).takeWhile (· ≠ '(') = trimChars p.toList :=
        List.takeWhile_eq_self_iff.2 fun c hc => decide_eq_true fun heq => hopen (heq ▸ hc)
      have htrim : trim (String.ofList (trimChars p.toList)) = trim p := by
        rw [← String.toList_inj, toList_trim, String.toList_ofList, trimChars_trimChars, toList_trim]
      rw [hall, htrim] at hmem
      exact hkey (List.mem_append_right ["delegate", "sequential", "parallel"] hmem)
  rw [isShorthandKey, hpoint, Bool.or_false, Bool.not_eq_true', List.contains_eq_mem,
    decide_eq_false_iff_not]
  exact fun hmem => hkey (List.mem_append_left _ hmem)

end Keys

variable [Library] [FloatText] [PolicyText] {p : String} {e : Expression}

theorem parseStepString_line (hp : parsePredicate p = .ok e) (hkey : trim p ∉ reservedStepKeys)
    {line : String} {rest predicate action : List Char}
    (hline : trimChars line.toList = p.toList.dropWhile isWhitespace ++ ':' :: rest)
    (hcut : splitPredicateAction (trimChars line.toList) = some (predicate, action))
    (source : String) :
    parseStepString line source =
      (lineRule predicate action (String.ofList (trimChars line.toList)) source).map .rule := by
  have hkinds : ∀ start, start = "plugin(" ∨ start ∈ stepKinds.map Prod.fst →
      startsWith (trimChars line.toList) start = false := by
    intro start hstart
    rw [hline]
    exact startsWith_eq_false hp (stepName_ne hkey) hstart rest
  have hcalls : ∀ start, start = "delegate(" ∨ start ∈ elicitVerbs.map (·.1 ++ "(") →
      startsWith (trimChars line.toList) start = false := by
    intro start hstart
    obtain ⟨name, hstart⟩ := exists_callStart hstart
    rw [hline]
    exact hstart.startsWith_eq_false hp (by simp) rest
  have hkind : detectStepKind (trimChars line.toList) = none :=
    hline ▸ detectStepKind_eq_none hp (stepName_ne hkey) rest
  have hverbs : (elicitVerbs.find? fun verb =>
      startsWith (trimChars line.toList) (verb.1 ++ "(")) = none := by
    rw [List.find?_eq_none]
    intro verb hverb
    rw [hcalls _ (.inr (List.mem_map_of_mem hverb))]
    exact Bool.false_ne_true
  rw [parseStepString, hkinds "taint(" (.inr (by decide)), hkinds "plugin(" (.inl rfl),
    hkinds "run(" (.inr (by decide)),
    hcalls "delegate(" (.inl rfl), hverbs, parseRule, String.toList_ofList, trimChars_trimChars,
    hkinds "plugin(" (.inl rfl), hkind, hcut]
  rfl

theorem comesTo_line (hp : parsePredicate p = .ok e) (hkey : trim p ∉ reservedStepKeys)
    (action source : String) :
    ComesTo (parseStep (.string (p ++ ": " ++ action)) source)
      (if isControlAction action then spelledRule p e action source else none) := by
  obtain ⟨lead, hlead, hline⟩ := exists_trimmed_line p.toList action.toList
  have hweighs := weighs_of_parsePredicate hp
  have htoList : (p ++ ": " ++ action).toList = p.toList ++ ':' :: ' ' :: action.toList := by simp
  rw [← htoList] at hline
  have hcut := splitPredicateAction_line hweighs (lead ++ trimChars action.toList)
  rw [← hline, trimChars_dropWhile] at hcut
  have hparse := parseStepString_line hp hkey hline hcut source
  obtain ⟨ps, -, hfound⟩ := (weighs_blank hlead).lastColon_append (trimChars action.toList)
  rw [parseStep, hparse, hfound]
  cases hcolon : lastColon 0 0 (pieces (trimChars action.toList)) with
  | some cut =>
    have hnone : (if isControlAction action then spelledRule p e action source else none) = none := by
      split_ifs with hcontrol
      · exact spelledRule_of_colon hcontrol (by simp [hcolon])
      · rfl
    rw [hnone]
    obtain ⟨err, herr⟩ := refused_of_colon hp (textOf (ps ++ cut.1)) (trimChars (textOf cut.2))
      (String.ofList (trimChars (p ++ ": " ++ action).toList)) source
    dsimp only [Option.map_some]
    rw [herr]
    exact .refused rfl
  | none =>
    dsimp only [Option.map_none]
    rw [trimChars_blank_append hlead, trimChars_trimChars]
    cases hcontrol : isControlAction action with
    | false =>
      obtain ⟨err, herr⟩ := parseAction_eq_error
        (String.ofList (trimChars (p ++ ": " ++ action).toList)) hcontrol
      rw [lineRule, herr]
      exact .refused rfl
    | true =>
      rw [if_pos rfl]
      exact comesTo_controlAction hp hcontrol _ source

/-- Both are refused, or compile to nodes with one condition and one body. -/
def SameRule (step step' : Except ParseError PolicyStep) : Prop :=
  ∃ outcome, ComesTo step outcome ∧ ComesTo step' outcome

/-- The two maps agree on every action.  The line agrees with them on every control action, and
refuses every other text. -/
theorem rule_spellings_agree (hp : parsePredicate p = .ok e) (hkey : trim p ∉ reservedStepKeys)
    (action source : String) :
    SameRule (parseStep (.mapping [(.string "when", .string p), (.string "do", .string action)]) source)
      (parseStep (.mapping [(.string p, .sequence [.string action])]) source) ∧
    (isControlAction action = true →
      SameRule (parseStep (.string (p ++ ": " ++ action)) source)
        (parseStep (.mapping [(.string p, .sequence [.string action])]) source)) ∧
    (isControlAction action = false →
      ∃ err, parseStep (.string (p ++ ": " ++ action)) source = .error err) := by
  have hlist := comesTo_shorthand hp (isShorthandKey_of_parsePredicate hp hkey) action source
  have hline := comesTo_line hp hkey action source
  have hmap := comesTo_whenDo hp action source (.inl rfl)
  refine ⟨⟨_, hmap, hlist⟩, ?_, ?_⟩
  · intro hcontrol
    rw [if_pos hcontrol] at hline
    exact ⟨_, hline, hlist⟩
  · intro hcontrol
    rw [if_neg (by simp [hcontrol])] at hline
    cases hline with
    | refused h => exact ⟨_, h⟩

end Spellings

section Instances

attribute [local instance] treeLibrary treeFloats treeTexts

theorem parsePredicate_delegated :
    parsePredicate "delegated" = .ok (.condition (.isTrue "delegated")) := by
  have htrim : trimChars "delegated".toList = "delegated".toList := by decide
  have htoks : tokenize "delegated".toList = .ok [.ident "delegated"] := by decide
  rw [parsePredicate, htrim, htoks]
  rfl

theorem rule_spellings_agree_deny :
    SameRule (parseStep (.mapping [(.string "when", .string "delegated"),
        (.string "do", .string "deny")]) "policy[0]")
      (parseStep (.mapping [(.string "delegated", .sequence [.string "deny"])]) "policy[0]") ∧
    SameRule (parseStep (.string ("delegated" ++ ": " ++ "deny")) "policy[0]")
      (parseStep (.mapping [(.string "delegated", .sequence [.string "deny"])]) "policy[0]") := by
  obtain ⟨hmaps, hline, -⟩ :=
    rule_spellings_agree parsePredicate_delegated (by decide) "deny" "policy[0]"
  exact ⟨hmaps, hline (by decide)⟩

theorem line_refuses_taint :
    ¬ SameRule (parseStep (.string ("delegated" ++ ": " ++ "taint(pii)")) "policy[0]")
      (parseStep (.mapping [(.string "delegated", .sequence [.string "taint(pii)"])]) "policy[0]") := by
  have hkey : trim "delegated" ∉ reservedStepKeys := by decide
  have hline := comesTo_line parsePredicate_delegated hkey "taint(pii)" "policy[0]"
  have hlist := comesTo_shorthand parsePredicate_delegated
    (isShorthandKey_of_parsePredicate parsePredicate_delegated hkey) "taint(pii)" "policy[0]"
  have hspelled : spelledRule "delegated" (.condition (.isTrue "delegated")) "taint(pii)" "policy[0]" =
      some (.condition (.isTrue "delegated"), [.taint "pii" [.session]]) := by
    rw [spelledRule, parseEffectString_taint]
    rfl
  rw [if_neg (by decide)] at hline
  rw [hspelled] at hlist
  cases hline with
  | refused hline =>
    cases hlist with
    | rule hlist =>
      rintro ⟨outcome, h, h'⟩
      cases h with
      | refused h =>
        cases h' with
        | refused h' =>
          rw [h'] at hlist
          cases hlist
      | rule h =>
        rw [hline] at h
        cases h

end Instances

end PraxisPolicy
