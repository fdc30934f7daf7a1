import PraxisPolicy.ParallelMeaning

/-!
# Parallel nodes behave like sequential ones

Where no plugin panics and plugins and decision points keep no state, a tree and the one with
`sequential:` in place of `parallel:` allow the same requests and leave the same state.
-/

namespace PraxisPolicy

open WorldTasks

namespace Effect

mutual

/-- Some `parallel:` nodes are made `sequential:`. -/
def SerializesTo : Effect → Effect → Prop
  | .parallel es, e' =>
    ∃ es', (e' = .parallel es' ∨ e' = .sequential es') ∧ SerializeTo es es'
  | .sequential es, e' => ∃ es', e' = .sequential es' ∧ SerializeTo es es'
  | .when condition body source, e' =>
    ∃ body', e' = .when condition body' source ∧ SerializeTo body body'
  | .pdp call onAllow onDeny, e' =>
    ∃ onAllow' onDeny', e' = .pdp call onAllow' onDeny' ∧ SerializeTo onAllow onAllow' ∧
      SerializeTo onDeny onDeny'
  | .allow, e' => e' = .allow
  | .deny reason code, e' => e' = .deny reason code
  | .plugin name, e' => e' = .plugin name
  | .delegate step, e' => e' = .delegate step
  | .elicit step, e' => e' = .elicit step
  | .taint label scopes, e' => e' = .taint label scopes
  | .restrict spec, e' => e' = .restrict spec
  | .fieldOp path stages, e' => e' = .fieldOp path stages

def SerializeTo : List Effect → List Effect → Prop
  | [], es' => es' = []
  | e :: es, es' => ∃ e' rest, es' = e' :: rest ∧ SerializesTo e e' ∧ SerializeTo es rest

end

theorem serializeTo_iff_forall₂ {es es' : List Effect} :
    SerializeTo es es' ↔ List.Forall₂ SerializesTo es es' := by
  induction es generalizing es' with
  | nil => simp [SerializeTo]
  | cons e es ih =>
    simp only [SerializeTo, ih, List.forall₂_cons_left_iff]
    constructor
    · rintro ⟨e', rest, rfl, he, hes⟩
      exact ⟨e', rest, he, hes, rfl⟩
    · rintro ⟨e', rest, he, hes, rfl⟩
      exact ⟨e', rest, rfl, he, hes⟩

/-- What treats both kinds of blocks alike stays. -/
theorem SerializesTo.congr {α : Type*} {f : Effect → α} {e e' : Effect} (h : SerializesTo e e')
    (parallel : ∀ es, f (.parallel es) = f (.sequential es))
    (sequential : ∀ {es es'}, es'.map f = es.map f → f (.sequential es') = f (.sequential es))
    (when : ∀ {condition body body' source}, body'.map f = body.map f →
      f (.when condition body' source) = f (.when condition body source))
    (pdp : ∀ {call onAllow onAllow' onDeny onDeny'}, onAllow'.map f = onAllow.map f →
      onDeny'.map f = onDeny.map f →
        f (.pdp call onAllow' onDeny') = f (.pdp call onAllow onDeny)) : f e' = f e := by
  have hmap : ∀ {es es' : List Effect}, (∀ e ∈ es, ∀ {e'}, SerializesTo e e' → f e' = f e) →
      SerializeTo es es' → es'.map f = es.map f := by
    intro es es' heach hes
    rw [serializeTo_iff_forall₂] at hes
    induction hes with
    | nil => rfl
    | @cons e e' es es' he _ ih =>
      rw [List.map_cons, List.map_cons, heach e List.mem_cons_self he,
        ih fun e he => heach e (List.mem_cons_of_mem _ he)]
  induction e using Effect.induction generalizing e' with rw [SerializesTo] at h
  | sequential es ih =>
    obtain ⟨es', rfl, hes⟩ := h
    exact sequential (hmap ih hes)
  | parallel es ih =>
    rw [parallel es]
    obtain ⟨es', rfl | rfl, hes⟩ := h
    · exact (parallel es').trans (sequential (hmap ih hes))
    · exact sequential (hmap ih hes)
  | when condition body source ih =>
    obtain ⟨body', rfl, hbody⟩ := h
    exact when (hmap ih hbody)
  | pdp call onAllow onDeny ihAllow ihDeny =>
    obtain ⟨onAllow', onDeny', rfl, hallow, hdeny⟩ := h
    exact pdp (hmap ihAllow hallow) (hmap ihDeny hdeny)
  | _ => rw [h]

theorem SerializesTo.containsMutation_eq {e e' : Effect} (h : SerializesTo e e') :
    e'.containsMutation = e.containsMutation := by
  have hany : ∀ es, anyContainsMutation es = (es.map containsMutation).any id := by
    intro es
    induction es with
    | nil => rfl
    | cons e es ih => rw [anyContainsMutation, ih, List.map_cons, List.any_cons, id]
  refine h.congr (fun _ => rfl) ?_ ?_ ?_ <;> simp +contextual [containsMutation, hany]

theorem validateParallelPurity_of_pure {e : Effect} (h : e.containsMutation = false) :
    e.validateParallelPurity = .ok () := by
  induction e using Effect.induction with
  | allow | deny _ _ | plugin _ | delegate _ | elicit _ | taint _ _ | restrict _ | fieldOp _ _ =>
    rfl
  | sequential es ih =>
    rw [containsMutation, anyContainsMutation_eq_false] at h
    rw [validateParallelPurity, validateEach_ok_iff]
    exact fun e he => ih e he (h e he)
  | parallel es ih =>
    rw [containsMutation, anyContainsMutation_eq_false] at h
    rw [validateParallelPurity, validateBranches_ok_iff]
    exact fun e he => ⟨h e he, ih e he (h e he)⟩
  | when condition body source ih =>
    rw [containsMutation, anyContainsMutation_eq_false] at h
    rw [validateParallelPurity, validateEach_ok_iff]
    exact fun e he => ih e he (h e he)
  | pdp call onAllow onDeny ihAllow ihDeny =>
    rw [containsMutation, Bool.or_eq_false_iff, anyContainsMutation_eq_false,
      anyContainsMutation_eq_false] at h
    rw [validateParallelPurity_pdp_ok_iff]
    exact ⟨fun e he => ihAllow e he (h.1 e he), fun e he => ihDeny e he (h.2 e he)⟩

end Effect

theorem Effect.SerializesTo.fallbackSource_eq {e e' : Effect} (h : e.SerializesTo e') :
    e'.fallbackSource = e.fallbackSource :=
  h.congr (fun _ => rfl) (fun _ => rfl) (fun _ => rfl) fun _ _ => rfl

section Meanings

variable [Library] {fixed : FixedAnswers} {phase : DispatchPhase} {bag : AttributeBag}
  {structured : StructuredInput}

theorem Effect.SerializesTo.meaning_eq {e e' : Effect} (h : e.SerializesTo e') :
    meaning fixed phase bag structured e' = meaning fixed phase bag structured e := by
  have hall : ∀ es, meaningAll fixed phase bag structured es =
      (es.map (meaning fixed phase bag structured)).foldr Meaning.both (some ([], [])) := by
    intro es
    induction es with
    | nil => rfl
    | cons e es ih => rw [meaningAll, ih, List.map_cons, List.foldr_cons]
  refine h.congr (fun _ => rfl) ?_ ?_ ?_ <;> simp +contextual [meaning, hall]

end Meanings

section Simulation

def Walk.SameBut (s s' : Walk) : Prop := ∃ visits, s' = { s with visits := visits }

/-- A caller cannot tell them apart, the words of a deny excepted. -/
def Alike : EffectOutcome × Walk → EffectOutcome × Walk → Prop
  | (.continue, s), (.continue, s') => s.SameBut s'
  | (.pending bundle, s), (.pending bundle', s') => bundle' = bundle ∧ s.SameBut s'
  | (.halt d, _), (.halt d', _) => d = .allow ↔ d' = .allow
  | _, _ => False

/-- Plugins and decision points answer by argument without panicking, the scheduler is not seen, and
the other invokers see nothing else. -/
structure Invokers.Stateless {W V : Type} (env : Invokers W) (outside : W → V)
    (fixed : FixedAnswers) : Prop extends env.AnswerBy outside fixed where
  returns : ∀ name bag invocation, ∃ answer, fixed.plugin name bag invocation = .ok answer
  delegate : ∀ step, Task.Matches outside (env.delegate step) (env.delegate step) Eq
  dispatch : ∀ step text,
    Task.Matches outside (env.dispatch step text) (env.dispatch step text) Eq
  check : ∀ step id, Task.Matches outside (env.check step id) (env.check step id) Eq
  validate : ∀ step id, Task.Matches outside (env.validate step id) (env.validate step id) Eq

variable {W V : Type} {env : Invokers W} {outside : W → V} {fixed : FixedAnswers}
  {phase : DispatchPhase}

theorem Invokers.AnswerBy.matches_plugin (h : env.AnswerBy outside fixed) (name : String)
    (bag : AttributeBag) (invocation : PluginInvocation) :
    Task.Matches outside (env.plugin name bag invocation) (env.plugin name bag invocation) Eq := by
  have hkeeps : (env.plugin name bag invocation).Keeps outside fun r =>
      r = fixed.plugin name bag invocation := h.plugin name bag invocation
  refine hkeeps.matches hkeeps fun r r' hr hr' => ?_
  rw [hr, hr']
  cases fixed.plugin name bag invocation <;> rfl

theorem matches_dispatchDelegation (h : env.Stateless outside fixed) (step : DelegateStep)
    (s : Walk) (visits : List Visit) :
    Task.Matches outside (dispatchDelegation env step s)
      (dispatchDelegation env step { s with visits := visits }) Alike := by
  unfold dispatchDelegation
  refine (h.delegate step).bind fun answer _ heq => ?_
  subst heq
  cases answer with
  | error e =>
    refine Task.matches_pure ?_
    by_cases hcontinue : step.continuesOnError = true
    · rw [if_pos hcontinue]
      exact ⟨_, rfl⟩
    · rw [if_neg hcontinue]
      exact Iff.rfl
  | ok outcome =>
    cases houtcome : outcome.decision with
    | allow =>
      simp only [houtcome]
      exact Task.matches_pure ⟨_, rfl⟩
    | deny reason source =>
      simp only [houtcome]
      refine Task.matches_pure ?_
      by_cases hcontinue : step.continuesOnError = true
      · rw [if_pos hcontinue]
        exact ⟨_, rfl⟩
      · rw [if_neg hcontinue]
        exact Iff.rfl

variable [Library]

theorem matches_runStages (h : env.AnswerBy outside fixed) (bag : AttributeBag) (field : String)
    (stages : List Stage) (idx : ℕ) (current : JsonValues.Json) (replaced : Bool)
    (taints : List TaintEvent) (visits : List Visit) :
    Task.Matches outside (runStages env bag field phase stages idx current replaced taints visits)
      (runStages env bag field phase stages idx current replaced taints visits) Eq := by
  induction stages generalizing idx current replaced taints visits with
  | nil =>
    rw [runStages]
    exact Task.matches_pure rfl
  | cons stage stages ih =>
    rw [runStages.eq_def]
    dsimp only
    split
    case h_1 name =>
      refine (h.matches_plugin name bag _).bind fun answer _ heq => ?_
      subst heq
      split
      case h_1 outcome =>
        split
        · split <;> exact ih _ _ _ _ _
        · exact Task.matches_pure rfl
      case h_2 => exact Task.matches_pure rfl
    case h_2 =>
      split
      case h_4 => exact Task.matches_pure rfl
      case h_5 => exact Task.matches_pure rfl
      all_goals exact ih _ _ _ _ _

def SameLoop (r r' : Walk × Option EffectOutcome) : Prop := r.1.SameBut r'.1 ∧ r'.2 = r.2

theorem matches_fieldOpAt (h : env.AnswerBy outside fixed) {side : Side} {subpath : String}
    {stages : List Stage} {fallbackSource : String} (concrete : List String) (s s' : Walk)
    (hs : SameLoop (s, none) (s', none)) :
    Task.Matches outside (fieldOpAt env side subpath stages fallbackSource phase concrete s)
      (fieldOpAt env side subpath stages fallbackSource phase concrete s') SameLoop := by
  obtain ⟨⟨visits, rfl⟩, -⟩ := hs
  rw [fieldOpAt, fieldOpAt]
  dsimp only
  split
  case h_1 => exact Task.matches_pure ⟨⟨visits, rfl⟩, rfl⟩
  case h_2 current _ =>
    refine (matches_runStages h s.bag subpath stages 0 current false [] []).bind fun eval _ heq => ?_
    subst heq
    split
    case h_1 => exact Task.matches_pure ⟨⟨_, rfl⟩, rfl⟩
    case h_2 => exact Task.matches_pure ⟨⟨visits ++ eval.visits ++ _, by cases side <;> rfl⟩, rfl⟩
    case h_3 => exact Task.matches_pure ⟨⟨visits ++ eval.visits ++ _, by cases side <;> rfl⟩, rfl⟩
    case h_4 => exact Task.matches_pure ⟨⟨_, rfl⟩, rfl⟩

theorem matches_dispatchFieldSide (h : env.AnswerBy outside fixed) (side : Side)
    (root : JsonValues.Json) (path subpath : String) (stages : List Stage) (fallbackSource : String)
    (s : Walk) (visits : List Visit) :
    Task.Matches outside
      (dispatchFieldSide env side root path subpath stages fallbackSource phase s)
      (dispatchFieldSide env side root path subpath stages fallbackSource phase
        { s with visits := visits }) Alike := by
  unfold dispatchFieldSide
  split
  case h_1 => exact Task.matches_pure Iff.rfl
  case h_2 paths _ =>
    refine (Task.matches_forEach (R := SameLoop) (fun _ _ hr => by rw [hr.2])
      (matches_fieldOpAt h) paths ⟨⟨visits, rfl⟩, rfl⟩).bind fun r r' hr => ?_
    obtain ⟨s', halted⟩ := r
    obtain ⟨s'', halted'⟩ := r'
    obtain ⟨hsame, hhalted⟩ := hr
    cases hhalted
    refine Task.matches_pure ?_
    cases halted.getD .continue with
    | «continue» => exact hsame
    | halt d => exact Iff.rfl
    | pending bundle => exact ⟨rfl, hsame⟩

theorem matches_dispatchFieldOp (h : env.AnswerBy outside fixed) (path : String)
    (stages : List Stage) (fallbackSource : String) (s : Walk) (visits : List Visit) :
    Task.Matches outside (dispatchFieldOp env path stages fallbackSource phase s)
      (dispatchFieldOp env path stages fallbackSource phase { s with visits := visits }) Alike := by
  have hskip : Task.Matches outside (pure (.continue, s))
      (pure (.continue, { s with visits := visits })) Alike := Task.matches_pure ⟨visits, rfl⟩
  unfold dispatchFieldOp
  split
  case h_1 =>
    split
    · exact matches_dispatchFieldSide h _ _ _ _ _ _ s visits
    · exact hskip
  case h_2 =>
    split
    · dsimp only
      split
      · exact matches_dispatchFieldSide h _ _ _ _ _ _ s visits
      · exact hskip
    · exact hskip
  case h_3 => exact Task.matches_pure Iff.rfl

theorem matches_settleElicitation (h : env.Stateless outside fixed) (step : ElicitStep)
    (id : String) (bag : AttributeBag) :
    Task.Matches outside (settleElicitation env step id bag) (settleElicitation env step id bag)
      Eq := by
  unfold settleElicitation
  refine (h.check step id).bind fun status _ heq => ?_
  subst heq
  split
  case h_5 =>
    refine (h.validate step id).bind fun validation _ heq => ?_
    subst heq
    cases validation with
    | error e => exact Task.matches_pure rfl
    | ok validation =>
      dsimp only
      split
      · split <;> exact Task.matches_pure rfl
      · exact Task.matches_pure rfl
  all_goals exact Task.matches_pure rfl

theorem matches_dispatchElicitation (h : env.Stateless outside fixed) (step : ElicitStep)
    (bag : AttributeBag) :
    Task.Matches outside (dispatchElicitation env step bag) (dispatchElicitation env step bag)
      Eq := by
  unfold dispatchElicitation
  split
  case h_1 => exact Task.matches_pure rfl
  case h_2 resolvedFrom _ =>
    split
    case h_1 id _ => exact matches_settleElicitation h step id bag
    case h_2 =>
      refine (h.dispatch step resolvedFrom).bind fun answer _ heq => ?_
      subst heq
      cases answer with
      | error e => exact Task.matches_pure rfl
      | ok d => exact matches_settleElicitation h step d.id _

theorem matches_elicit (h : env.Stateless outside fixed) (step : ElicitStep)
    (fallbackSource : String) (s : Walk) (visits : List Visit) :
    Task.Matches outside (dispatchEffect env phase (.elicit step) fallbackSource s)
      (dispatchEffect env phase (.elicit step) fallbackSource { s with visits := visits })
      Alike := by
  rw [dispatchEffect, dispatchEffect]
  refine (matches_dispatchElicitation h step s.bag).bind fun answer _ heq => ?_
  subst heq
  obtain ⟨outcome, bag, verdict⟩ := answer
  refine Task.matches_pure ?_
  cases outcome with
  | «continue» => exact ⟨_, rfl⟩
  | pending bundle => exact ⟨rfl, _, rfl⟩
  | halt d => exact Iff.rfl

theorem keeps_pureEffect (h : env.Stateless outside fixed) {e : Effect}
    (hpure : e.containsMutation = false) (fallbackSource : String) (s : Walk) :
    (dispatchEffect env phase e fallbackSource s).Keeps outside fun result => ∃ r, result = .ok r ∧
      Settles s (meaning fixed phase s.bag s.payload.structured e) (.ok r) ∧
        r.1 ≠ .halt .allow := by
  have hkeeps : (dispatchEffect env phase e fallbackSource s).Keeps outside _ :=
    keeps_dispatchEffect h.toAnswerBy e hpure fallbackSource s rfl rfl
  have hplugin : ∀ name bag, (env.plugin name bag (.step phase)).Yields fun _ => True := by
    intro name bag w
    obtain ⟨answer, hanswer⟩ := h.returns name bag (.step phase)
    exact ⟨answer, _, Prod.ext ((h.plugin name bag (.step phase) w).1.trans hanswer) rfl, trivial⟩
  have hyields := holds_dispatchEffect Task.yields fallbackSource s hplugin e hpure
  intro w
  obtain ⟨hsettles, hout⟩ := hkeeps w
  obtain ⟨r, w', hrun, -⟩ := hyields w
  have hclosed := ensures_dispatchEffect e (Effect.validateParallelPurity_of_pure hpure)
    fallbackSource s w r w' hrun
  rw [hrun] at hsettles hout ⊢
  exact ⟨⟨r, rfl, hsettles, hclosed.denies⟩, hout⟩

variable (env outside phase) in
def DispatchMatches (e e' : Effect) : Prop :=
  ∀ fallbackSource s visits, Task.Matches outside (dispatchEffect env phase e fallbackSource s)
    (dispatchEffect env phase e' fallbackSource { s with visits := visits }) Alike

theorem dispatchMatches_of_meaning (h : env.Stateless outside fixed) {e e' : Effect}
    (hpure : e.containsMutation = false) (hpure' : e'.containsMutation = false)
    (hmeaning : ∀ bag structured,
      meaning fixed phase bag structured e' = meaning fixed phase bag structured e) :
    DispatchMatches env outside phase e e' := by
  intro fallbackSource s visits
  refine (keeps_pureEffect h hpure fallbackSource s).matches
    (keeps_pureEffect h hpure' fallbackSource { s with visits := visits }) ?_
  rintro _ _ ⟨r, rfl, hr, hdeny⟩ ⟨r', rfl, hr', hdeny'⟩
  rw [hmeaning] at hr'
  generalize meaning fixed phase s.bag s.payload.structured e = m at hr hr'
  cases m with
  | some added =>
    obtain ⟨later, hr⟩ := hr
    obtain ⟨later', hr'⟩ := hr'
    cases hr
    cases hr'
    exact ⟨later', rfl⟩
  | none =>
    obtain ⟨_ | d | bundle, s₁⟩ := r
    · cases hr
    · obtain ⟨_ | d' | bundle', s₂⟩ := r'
      · cases hr'
      · exact ⟨fun hd => absurd (congrArg _ hd) hdeny, fun hd => absurd (congrArg _ hd) hdeny'⟩
      · cases hr'
    · cases hr

variable {es es' : List Effect}

theorem matches_dispatchList (hes : Effect.SerializeTo es es')
    (heach : ∀ e ∈ es, ∀ e', e.SerializesTo e' → DispatchMatches env outside phase e e')
    (fallbackSource : String) (s : Walk) (visits : List Visit) :
    Task.Matches outside (dispatchList env phase es fallbackSource s)
      (dispatchList env phase es' fallbackSource { s with visits := visits }) Alike := by
  induction es generalizing es' s visits with
  | nil =>
    rw [Effect.SerializeTo] at hes
    rw [hes, dispatchList, dispatchList]
    exact Task.matches_pure ⟨visits, rfl⟩
  | cons e es ih =>
    rw [Effect.SerializeTo] at hes
    obtain ⟨e', rest, rfl, he, hrest⟩ := hes
    rw [dispatchList, dispatchList]
    refine (heach e List.mem_cons_self e' he fallbackSource s visits).bind fun r r' hr => ?_
    obtain ⟨_ | d | bundle, s₁⟩ := r <;> obtain ⟨_ | d' | bundle', s₂⟩ := r'
    · obtain ⟨visits', rfl⟩ := hr
      exact ih hrest (fun e he => heach e (List.mem_cons_of_mem _ he)) s₁ visits'
    · exact hr.elim
    · exact hr.elim
    · exact hr.elim
    · exact Task.matches_pure hr
    · exact hr.elim
    · exact hr.elim
    · exact hr.elim
    · exact Task.matches_pure hr

theorem dispatchMatches_of_serializesTo (h : env.Stateless outside fixed) {e e' : Effect}
    (hpure : e.validateParallelPurity = .ok ()) (hserial : e.SerializesTo e') :
    DispatchMatches env outside phase e e' := by
  induction e using Effect.induction generalizing e' with
  | allow | deny _ _ | plugin _ | taint _ _ | restrict _ =>
    rw [Effect.SerializesTo] at hserial
    rw [hserial]
    exact dispatchMatches_of_meaning h rfl rfl fun _ _ => rfl
  | delegate step =>
    rw [Effect.SerializesTo] at hserial
    intro fallbackSource s visits
    rw [hserial, dispatchEffect, dispatchEffect]
    exact matches_dispatchDelegation h step s visits
  | elicit step =>
    rw [Effect.SerializesTo] at hserial
    rw [hserial]
    exact matches_elicit h step
  | fieldOp path stages =>
    rw [Effect.SerializesTo] at hserial
    intro fallbackSource s visits
    rw [hserial, dispatchEffect, dispatchEffect]
    exact matches_dispatchFieldOp h.toAnswerBy path stages fallbackSource s visits
  | sequential es ih =>
    rw [Effect.SerializesTo] at hserial
    obtain ⟨es', rfl, hes⟩ := hserial
    rw [Effect.validateParallelPurity, Effect.validateEach_ok_iff] at hpure
    intro fallbackSource s visits
    rw [dispatchEffect, dispatchEffect]
    exact matches_dispatchList hes (fun e he e' => ih e he (hpure e he)) fallbackSource s visits
  | parallel es ih =>
    -- branches hold no mutations, so the node has a meaning, and it is that of the list
    rw [Effect.validateParallelPurity, Effect.validateBranches_ok_iff] at hpure
    have hmutation : (Effect.parallel es).containsMutation = false := by
      rw [Effect.containsMutation, Effect.anyContainsMutation_eq_false]
      exact fun e he => (hpure e he).1
    exact dispatchMatches_of_meaning h hmutation (hserial.containsMutation_eq.trans hmutation)
      fun _ _ => hserial.meaning_eq
  | when condition body source ih =>
    rw [Effect.SerializesTo] at hserial
    obtain ⟨body', rfl, hbody⟩ := hserial
    rw [Effect.validateParallelPurity, Effect.validateEach_ok_iff] at hpure
    intro fallbackSource s visits
    rw [dispatchEffect, dispatchEffect]
    simp only [Walk.visit]
    split
    case h_1 => exact Task.matches_pure ⟨_, rfl⟩
    case h_2 => exact Task.matches_pure Iff.rfl
    case h_3 => exact matches_dispatchList hbody (fun e he e' => ih e he (hpure e he)) source _ _
  | pdp call onAllow onDeny ihAllow ihDeny =>
    rw [Effect.SerializesTo] at hserial
    obtain ⟨onAllow', onDeny', rfl, hallow, hdeny⟩ := hserial
    rw [Effect.validateParallelPurity_pdp_ok_iff] at hpure
    intro fallbackSource s visits
    rw [dispatchEffect, dispatchEffect]
    have hanswer : Task.Matches outside (evaluatePdpContained env call s.bag s.payload.structured)
        (evaluatePdpContained env call s.bag s.payload.structured) Eq := by
      refine (keeps_evaluatePdpContained h.toAnswerBy call).matches
        (keeps_evaluatePdpContained h.toAnswerBy call) fun r r' hr hr' => ?_
      rw [hr, hr']
      rfl
    refine hanswer.bind fun answer _ heq => ?_
    subst heq
    rcases answer with e | ⟨_ | ⟨reason, source⟩, diagnostics⟩
    · exact Task.matches_pure Iff.rfl
    · exact matches_dispatchList hallow (fun e he e' => ihAllow e he (hpure.1 e he)) fallbackSource
        _ _
    · refine (matches_dispatchList hdeny (fun e he e' => ihDeny e he (hpure.2 e he)) fallbackSource
        _ _).bind fun r r' hr => ?_
      obtain ⟨_ | d | bundle, s₁⟩ := r <;> obtain ⟨_ | d' | bundle', s₂⟩ := r'
      · exact Task.matches_pure Iff.rfl
      · exact hr.elim
      · exact hr.elim
      · exact hr.elim
      · exact Task.matches_pure hr
      · exact hr.elim
      · exact hr.elim
      · exact hr.elim
      · exact Task.matches_pure hr

/-- Both evaluations allow or both deny, and what is allowed is the same. -/
structure EvaluationsAgree (r r' : StepsEvaluation × Walk) : Prop where
  decision : r.1.decision = .allow ↔ r'.1.decision = .allow
  allowed : r.1.decision = .allow → r'.1 = r.1 ∧ r'.2.payload = r.2.payload

theorem matches_runPhase (h : env.Stateless outside fixed)
    (hpure : ∀ e ∈ es, e.validateParallelPurity = .ok ()) (hes : Effect.SerializeTo es es')
    (s : Walk) (visits : List Visit) :
    Task.Matches outside (runPhase env phase es s)
      (runPhase env phase es' { s with visits := visits }) EvaluationsAgree := by
  induction es generalizing es' s visits with
  | nil =>
    rw [Effect.SerializeTo] at hes
    rw [hes, runPhase, runPhase]
    exact Task.matches_pure ⟨Iff.rfl, fun _ => ⟨rfl, rfl⟩⟩
  | cons e es ih =>
    rw [Effect.SerializeTo] at hes
    obtain ⟨e', rest, rfl, he, hrest⟩ := hes
    obtain ⟨hvalid, hpure⟩ := List.forall_mem_cons.1 hpure
    rw [runPhase, runPhase, he.fallbackSource_eq]
    refine ((dispatchMatches_of_serializesTo h hvalid he e.fallbackSource s visits).ensures_left
      (ensures_dispatchEffect e hvalid e.fallbackSource s)).bind fun r r' hr => ?_
    obtain ⟨halike, hclosed⟩ := hr
    obtain ⟨_ | d | bundle, s₁⟩ := r <;> obtain ⟨_ | d' | bundle', s₂⟩ := r'
    · obtain ⟨visits', rfl⟩ := halike
      exact ih hpure hrest s₁ visits'
    · exact halike.elim
    · exact halike.elim
    · exact halike.elim
    · have hdeny : d ≠ .allow := fun hd => hclosed.denies (congrArg _ hd)
      exact Task.matches_pure ⟨halike, fun hd => absurd hd hdeny⟩
    · exact halike.elim
    · exact halike.elim
    · exact halike.elim
    · obtain ⟨rfl, visits', rfl⟩ := halike
      exact Task.matches_pure ⟨Iff.rfl, fun _ => ⟨rfl, rfl⟩⟩

end Simulation

end PraxisPolicy
