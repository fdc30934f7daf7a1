import PraxisPolicy.EffectFailClosed
import PraxisPolicy.ParallelSafety

/-!
# What an effect without mutations comes to

When plugins and decision points answer by their arguments alone, such an effect stops the request
or adds certain taints and constraints, in whatever order branches end.
-/

namespace PraxisPolicy

open WorldTasks

section Meaning

/-- Answers by argument; a plugin may panic. -/
structure FixedAnswers where
  plugin : String → AttributeBag → PluginInvocation →
    Except String (Except PluginError PluginOutcome)
  pdp : PdpCall → AttributeBag → StructuredInput → PdpReply

/-- Plugins and decision points answer by argument, and neither they nor the scheduler touch what
the other invokers see. -/
structure Invokers.AnswerBy {W V : Type} (env : Invokers W) (outside : W → V)
    (fixed : FixedAnswers) : Prop where
  plugin : ∀ name bag invocation w, (env.plugin name bag invocation w).1 =
    fixed.plugin name bag invocation ∧ outside (env.plugin name bag invocation w).2 = outside w
  pdp : ∀ call bag structured w, (env.pdp call bag structured w).1 =
    fixed.pdp call bag structured ∧ outside (env.pdp call bag structured w).2 = outside w
  schedule : ∀ n w, outside (env.schedule n w).2 = outside w

abbrev Meaning := Option (List TaintEvent × List CandidateConstraint)

def Meaning.both (m m' : Meaning) : Meaning :=
  m.bind fun added => m'.map fun added' => (added.1 ++ added'.1, added.2 ++ added'.2)

theorem Meaning.both_eq_some {m m' : Meaning} {added : List TaintEvent × List CandidateConstraint} :
    m.both m' = some added ↔ ∃ first later, m = some first ∧ m' = some later ∧
      added = (first.1 ++ later.1, first.2 ++ later.2) := by
  cases m <;> cases m' <;> simp [Meaning.both, eq_comm]

variable [Library] (fixed : FixedAnswers) (phase : DispatchPhase) (bag : AttributeBag)
  (structured : StructuredInput)

def FixedAnswers.contained (call : PdpCall) : Except PdpError PdpDecision :=
  if call.requiresLlmRequest && structured.llmRequest.isNone then .ok llmRequestMissing
  else if structured.tooDeep then .ok inputTooDeep
  else match fixed.pdp call bag structured with
    | .answered answer => answer
    | .timedOut => .error (.dispatch "PDP timed out")
    | .panicked message => .error (.dispatch ("PDP task panicked: " ++ message))
    | .cancelled message => .error (.dispatch ("PDP task cancelled: " ++ message))

mutual

def meaning : Effect → Meaning
  | .allow => some ([], [])
  | .plugin name =>
    match fixed.plugin name bag (.step phase) with
    | .ok (.ok ⟨.allow, taints, _⟩) => some (taints, [])
    | _ => none
  | .taint label scopes => some ([⟨label, scopes⟩], [])
  | .restrict spec =>
    match spec.resolve bag with
    | .ok c => some ([], if c.isEmpty then [] else [c])
    | .error _ => none
  | .sequential effects | .parallel effects => meaningAll effects
  | .when condition body _ =>
    match evalExpression bag condition with
    | .ok false => some ([], [])
    | .ok true => meaningAll body
    | .error _ => none
  | .pdp call onAllow _ =>
    match fixed.contained bag structured call with
    | .ok ⟨.allow, _⟩ => meaningAll onAllow
    | _ => none
  | .deny _ _ | .fieldOp _ _ | .delegate _ | .elicit _ => none

def meaningAll : List Effect → Meaning
  | [] => some ([], [])
  | e :: es => (meaning e).both (meaningAll es)

end

end Meaning

section Settling

/-- By a panic or by a deny. -/
def Stops : Except String (EffectOutcome × Walk) → Prop
  | .error _ => True
  | .ok (outcome, _) => outcome.isHalt = true

/-- A run from `s` that comes to `m`. -/
def Settles (s : Walk) : Meaning → Except String (EffectOutcome × Walk) → Prop
  | none, r => Stops r
  | some added, r => ∃ visits, r = .ok (.continue,
      { s with
        taints := s.taints ++ added.1
        constraints := s.constraints ++ added.2
        visits := visits })

variable {s s' : Walk} {m m' : Meaning}

theorem settles_continue (s : Walk) (visits : List Visit) :
    Settles s (some ([], [])) (.ok (.continue, { s with visits := visits })) :=
  ⟨visits, by simp⟩

variable {r : Except String (EffectOutcome × Walk)}

theorem Settles.of_visits {visits : List Visit} (h : Settles { s with visits := visits } m r) :
    Settles s m r := by
  cases m with
  | none => exact h
  | some added => exact h

theorem Settles.of_continue (h : Settles s m (.ok (.continue, s'))) :
    ∃ added visits, m = some added ∧ s' = { s with
      taints := s.taints ++ added.1
      constraints := s.constraints ++ added.2
      visits := visits } := by
  cases m with
  | none => cases h
  | some added =>
    obtain ⟨visits, hr⟩ := h
    exact ⟨added, visits, rfl, (Prod.mk.inj (Except.ok.inj hr)).2⟩

theorem Settles.trans (h : Settles s m (.ok (.continue, s'))) (h' : Settles s' m' r) :
    Settles s (m.both m') r := by
  obtain ⟨added, visits, rfl, rfl⟩ := h.of_continue
  cases m' with
  | none => exact h'
  | some added' =>
    obtain ⟨visits', rfl⟩ := h'
    exact ⟨visits', by simp⟩

theorem Settles.stops (h : Settles s m r) (hr : ∀ s', r ≠ .ok (.continue, s')) : Stops r := by
  cases m with
  | none => exact h
  | some added =>
    obtain ⟨visits, rfl⟩ := h
    exact absurd rfl (hr _)

theorem Settles.both_of_stopped (h : Settles s m r) (hr : ∀ s', r ≠ .ok (.continue, s')) :
    Settles s (m.both m') r := by
  cases m with
  | none => exact h
  | some added =>
    obtain ⟨visits, rfl⟩ := h
    exact absurd rfl (hr _)

end Settling

section Walks

variable {W V : Type} {env : Invokers W} {outside : W → V} {fixed : FixedAnswers}
  {phase : DispatchPhase} {bag : AttributeBag} {structured : StructuredInput}

theorem keeps_evaluatePdpContained (h : env.AnswerBy outside fixed) (call : PdpCall) :
    (evaluatePdpContained env call bag structured).Keeps outside fun r =>
      r = .ok (fixed.contained bag structured call) := by
  unfold evaluatePdpContained FixedAnswers.contained
  split
  case isTrue => exact Task.keeps_pure rfl
  case isFalse =>
    split
    case isTrue => exact Task.keeps_pure rfl
    case isFalse =>
      have hcall : (Task.call (env.pdp call bag structured)).Keeps outside fun r =>
          r = .ok (fixed.pdp call bag structured) :=
        Task.keeps_call fun w => ⟨congrArg _ (h.pdp call bag structured w).1,
          (h.pdp call bag structured w).2⟩
      refine hcall.bind (fun reply hreply => ?_) fun p hp => nomatch hp
      rw [← Except.ok.inj hreply]
      cases reply <;> exact Task.keeps_pure rfl

variable [Library]

variable {es : List Effect} {runs : List (Except String (EffectOutcome × Walk))} {s : Walk}
  {added : List TaintEvent × List CandidateConstraint}

theorem keeps_dispatchList
    (h : ∀ e ∈ es, ∀ fallbackSource s, s.bag = bag → s.payload.structured = structured →
      (dispatchEffect env phase e fallbackSource s).Keeps outside
        (Settles s (meaning fixed phase bag structured e)))
    (fallbackSource : String) (s : Walk) (hbag : s.bag = bag)
    (hstructured : s.payload.structured = structured) :
    (dispatchList env phase es fallbackSource s).Keeps outside
      (Settles s (meaningAll fixed phase bag structured es)) := by
  induction es generalizing s with
  | nil =>
    rw [dispatchList, meaningAll]
    exact Task.keeps_pure (settles_continue s s.visits)
  | cons e es ih =>
    rw [dispatchList, meaningAll]
    refine (h e List.mem_cons_self fallbackSource s hbag hstructured).bind (fun r hr => ?_)
      fun p hp => hp.both_of_stopped fun _ hne => nomatch hne
    split
    case h_1 s' =>
      obtain ⟨added, visits, -, hs'⟩ := hr.of_continue
      have hrest := ih (fun e' he' => h e' (List.mem_cons_of_mem _ he')) s' (by rw [hs', hbag])
        (by rw [hs', hstructured])
      exact hrest.mono fun r' hr' => hr.trans hr'
    case h_2 hne =>
      refine Task.keeps_pure (hr.both_of_stopped fun s' heq => ?_)
      exact hne s' (Except.ok.inj heq)

theorem keeps_dispatchBranches
    (h : ∀ e ∈ es, ∀ fallbackSource s, s.bag = bag → s.payload.structured = structured →
      (dispatchEffect env phase e fallbackSource s).Keeps outside
        (Settles s (meaning fixed phase bag structured e)))
    (fallbackSource : String) (s : Walk) (hbag : s.bag = bag)
    (hstructured : s.payload.structured = structured) :
    (dispatchBranches env phase es fallbackSource s).Keeps outside fun r => ∃ runs, r = .ok runs ∧
      List.Forall₂ (fun e run => Settles s.branch (meaning fixed phase bag structured e) run)
        es runs := by
  induction es with
  | nil =>
    rw [dispatchBranches]
    exact Task.keeps_pure ⟨[], rfl, .nil⟩
  | cons e es ih =>
    rw [dispatchBranches]
    have hbranch := h e List.mem_cons_self fallbackSource s.branch hbag hstructured
    refine hbranch.contain.bind (fun run hrun => ?_) fun p ⟨_, hp, _⟩ => nomatch hp
    obtain ⟨_, ⟨⟩, hsettles⟩ := hrun
    refine (ih fun e' he' => h e' (List.mem_cons_of_mem _ he')).bind (fun runs hruns => ?_)
      fun p ⟨_, hp, _⟩ => nomatch hp
    obtain ⟨_, ⟨⟩, hall⟩ := hruns
    exact Task.keeps_pure ⟨_, rfl, .cons hsettles hall⟩

theorem foldl_mergeBranch_continues {values : List (EffectOutcome × Walk)} {s₀ : Walk}
    (h : List.Forall₂ (fun e run => Settles s₀.branch (meaning fixed phase bag structured e) run) es
      (values.map .ok))
    (hadded : meaningAll fixed phase bag structured es = some added) (fallbackSource : String)
    (s : Walk) (k : ℕ) :
    ∃ visits, (((es.zip (values.map .completed)).zipIdx k).foldl (mergeBranch fallbackSource)
      (s, none)) = ({ s with
        taints := s.taints ++ added.1
        constraints := s.constraints ++ added.2
        visits := visits }, none) := by
  induction es generalizing values s added k with
  | nil =>
    rw [meaningAll] at hadded
    cases hadded
    exact ⟨s.visits, by simp⟩
  | cons e es ih =>
    cases values with
    | nil => cases h
    | cons value values =>
      obtain ⟨hvalue, hrest⟩ := List.forall₂_cons.1 h
      rw [meaningAll] at hadded
      obtain ⟨first, later, hfirst, hlater, rfl⟩ := Meaning.both_eq_some.1 hadded
      rw [hfirst] at hvalue
      obtain ⟨_, hvalue⟩ := hvalue
      obtain rfl := Except.ok.inj hvalue
      obtain ⟨visits, hfold⟩ := ih hrest hlater { s with
        taints := s.taints ++ first.1
        constraints := s.constraints ++ first.2
        visits := s.visits ++ _ } (k + 1)
      refine ⟨visits, ?_⟩
      rw [List.map_cons, List.zip_cons_cons, List.zipIdx_cons, List.foldl_cons]
      simpa [mergeBranch, Walk.branch] using hfold

theorem exists_values_of_settles
    (h : List.Forall₂ (fun e run => Settles s (meaning fixed phase bag structured e) run) es runs)
    (hadded : meaningAll fixed phase bag structured es = some added) :
    ∃ values : List (EffectOutcome × Walk), runs = values.map .ok ∧
      ∀ value ∈ values, value.1.isHalt = false := by
  induction h generalizing added with
  | nil => exact ⟨[], rfl, by simp⟩
  | cons hrun _ ih =>
    rw [meaningAll] at hadded
    obtain ⟨first, later, hfirst, hlater, -⟩ := Meaning.both_eq_some.1 hadded
    obtain ⟨values, rfl, hvalues⟩ := ih hlater
    rw [hfirst] at hrun
    obtain ⟨visits, rfl⟩ := hrun
    exact ⟨_ :: values, rfl, List.forall_mem_cons.2 ⟨rfl, hvalues⟩⟩

theorem exists_stops_of_settles
    (h : List.Forall₂ (fun e run => Settles s (meaning fixed phase bag structured e) run) es runs)
    (hnone : meaningAll fixed phase bag structured es = none) : ∃ run ∈ runs, Stops run := by
  induction h with
  | nil =>
    rw [meaningAll] at hnone
    cases hnone
  | @cons e run es runs hrun _ ih =>
    rw [meaningAll] at hnone
    cases hmeaning : meaning fixed phase bag structured e with
    | none =>
      rw [hmeaning] at hrun
      exact ⟨run, List.mem_cons_self, hrun⟩
    | some first =>
      cases hrest : meaningAll fixed phase bag structured es with
      | none =>
        obtain ⟨stopped, hmem, hstops⟩ := ih hrest
        exact ⟨stopped, List.mem_cons_of_mem _ hmem, hstops⟩
      | some later =>
        rw [hmeaning, hrest] at hnone
        cases hnone

theorem settles_merge (fallbackSource : String) (sched : Schedule runs.length)
    (hruns : List.Forall₂ (fun e run => Settles s.branch (meaning fixed phase bag structured e) run)
      es runs) :
    Settles s (meaningAll fixed phase bag structured es)
      (match ((es.zip (runBranches runs parallelConfig (fun r => r.1.isHalt) sched)).zipIdx).foldl
          (mergeBranch fallbackSource) (s, none) with
        | (s, some d) => .ok (.halt d, s)
        | (s, none) => .ok (.continue, s)) := by
  cases hmeaning : meaningAll fixed phase bag structured es with
  | some added =>
    obtain ⟨values, rfl, hvalues⟩ := exists_values_of_settles hruns hmeaning
    obtain ⟨visits, hfold⟩ := foldl_mergeBranch_continues hruns hmeaning fallbackSource s 0
    rw [runBranches_map_ok rfl hvalues, hfold]
    exact ⟨visits, rfl⟩
  | none =>
    obtain ⟨run, hrun, hstops⟩ := exists_stops_of_settles hruns hmeaning
    rcases hfold : ((es.zip (runBranches runs parallelConfig (fun r => r.1.isHalt) sched)).zipIdx).foldl
        (mergeBranch fallbackSource) (s, none) with ⟨s', _ | d⟩
    · -- without a halt every branch would have passed
      have hpassed := passed_of_firstHalt_eq_none (by rw [length_runBranches, hruns.length_eq])
        (congrArg Prod.snd hfold)
      obtain ⟨values, rfl, hvalues⟩ := runBranches_eq_map_completed hpassed
      obtain ⟨value, hvalue, rfl⟩ := List.mem_map.1 hrun
      have hgo := hpassed (.completed value) (by rw [hvalues]; exact List.mem_map_of_mem hvalue)
      exact absurd (hstops.symm.trans hgo) (by decide)
    · rfl

theorem keeps_joinBranches (h : env.AnswerBy outside fixed) (fallbackSource : String)
    (hruns : List.Forall₂ (fun e run => Settles s.branch (meaning fixed phase bag structured e) run)
      es runs) :
    (joinBranches env es fallbackSource runs s).Keeps outside
      (Settles s (meaningAll fixed phase bag structured es)) := by
  have hcall : (Task.call (env.schedule runs.length)).Keeps outside fun r => ∃ sched, r = .ok sched :=
    Task.keeps_call fun w => ⟨⟨_, rfl⟩, h.schedule _ w⟩
  refine hcall.bind (fun sched _ => ?_) fun p ⟨_, hp⟩ => nomatch hp
  have hmerge := settles_merge fallbackSource sched hruns
  dsimp only at hmerge ⊢
  rcases hfold : ((es.zip (runBranches runs parallelConfig (fun r => r.1.isHalt) sched)).zipIdx).foldl
      (mergeBranch fallbackSource) (s, none) with ⟨s', _ | d⟩ <;> rw [hfold] at hmerge <;>
    exact Task.keeps_pure hmerge

theorem keeps_dispatchEffect (h : env.AnswerBy outside fixed) (e : Effect)
    (hpure : e.containsMutation = false) (fallbackSource : String) (s : Walk)
    (hbag : s.bag = bag) (hstructured : s.payload.structured = structured) :
    (dispatchEffect env phase e fallbackSource s).Keeps outside
      (Settles s (meaning fixed phase bag structured e)) := by
  induction e using Effect.induction generalizing fallbackSource s with
  | delegate _ | elicit _ | fieldOp _ _ => simp [Effect.containsMutation] at hpure
  | allow =>
    rw [dispatchEffect, meaning]
    exact Task.keeps_pure (settles_continue s s.visits)
  | deny reason code =>
    rw [dispatchEffect, meaning]
    exact Task.keeps_pure rfl
  | taint label scopes =>
    rw [dispatchEffect, meaning]
    exact Task.keeps_pure ⟨s.visits, by simp⟩
  | plugin name =>
    rw [dispatchEffect, meaning]
    have hcall : (env.plugin name s.bag (.step phase)).Keeps outside fun r =>
        r = fixed.plugin name bag (.step phase) := fun w => hbag ▸ h.plugin name s.bag (.step phase) w
    refine hcall.bind (fun answer hanswer => ?_) fun p hp => ?_
    · rw [← hanswer]
      rcases answer with e | ⟨_ | ⟨reason, source⟩, taints, value⟩
      · exact Task.keeps_pure rfl
      · exact Task.keeps_pure ⟨(s.visit (.plugin name (.ok ⟨.allow, taints, value⟩))).visits,
          by simp [Walk.visit]⟩
      · exact Task.keeps_pure rfl
    · rw [← hp]
      trivial
  | restrict spec =>
    rw [dispatchEffect, meaning]
    simp only [Walk.visit, hbag]
    cases spec.resolve bag with
    | error e => exact Task.keeps_pure rfl
    | ok c =>
      refine Task.keeps_pure ⟨(s.visit (.restrict (.ok c))).visits, ?_⟩
      by_cases hempty : c.isEmpty = true <;> simp [Walk.visit, hempty, hbag]
  | sequential es ih =>
    rw [Effect.containsMutation, Effect.anyContainsMutation_eq_false] at hpure
    rw [dispatchEffect, meaning]
    exact keeps_dispatchList (fun e he => ih e he (hpure e he)) fallbackSource s hbag hstructured
  | parallel es ih =>
    rw [Effect.containsMutation, Effect.anyContainsMutation_eq_false] at hpure
    rw [dispatchEffect, meaning]
    split
    case isTrue hempty =>
      rw [List.isEmpty_iff.1 hempty, meaningAll]
      exact Task.keeps_pure (settles_continue s s.visits)
    case isFalse =>
      refine (keeps_dispatchBranches (fun e he => ih e he (hpure e he)) fallbackSource s hbag
        hstructured).bind (fun runs hruns => ?_) fun p hp => ?_
      · obtain ⟨_, ⟨⟩, hsettled⟩ := hruns
        exact keeps_joinBranches h fallbackSource hsettled
      · obtain ⟨_, hp, _⟩ := hp
        cases hp
  | when c body source ih =>
    rw [Effect.containsMutation, Effect.anyContainsMutation_eq_false] at hpure
    rw [dispatchEffect, meaning]
    subst hbag hstructured
    have hbody := keeps_dispatchList (fun e he => ih e he (hpure e he)) source
      (s.visit (.when source (evalExpression s.bag c))) rfl rfl
    simp only [Walk.visit] at hbody ⊢
    generalize evalExpression s.bag c = value at hbody ⊢
    rcases value with err | _ | _
    · exact Task.keeps_pure rfl
    · exact Task.keeps_pure (settles_continue s _)
    · exact hbody.mono fun r hr => hr.of_visits
  | pdp call onAllow onDeny ihAllow ihDeny =>
    rw [Effect.containsMutation, Bool.or_eq_false_iff, Effect.anyContainsMutation_eq_false,
      Effect.anyContainsMutation_eq_false] at hpure
    rw [dispatchEffect, meaning]
    subst hbag hstructured
    refine (keeps_evaluatePdpContained h call).bind (fun answer hanswer => ?_) fun p hp => by cases hp
    rw [← Except.ok.inj hanswer]
    have hAllow := keeps_dispatchList (fun e he => ihAllow e he (hpure.1 e he)) fallbackSource
      (s.visit (.pdp call answer)) rfl rfl
    have hDeny := keeps_dispatchList (fun e he => ihDeny e he (hpure.2 e he)) fallbackSource
      (s.visit (.pdp call answer)) rfl rfl
    rcases answer with e | ⟨_ | ⟨reason, source⟩, diagnostics⟩
    · exact Task.keeps_pure rfl
    · exact hAllow.mono fun r hr => hr.of_visits
    · -- the reactions to a deny cannot undo it
      refine hDeny.bind (fun r hr => ?_) fun p _ => trivial
      split
      case h_1 => exact Task.keeps_pure rfl
      case h_2 hne => exact Task.keeps_pure (hr.stops fun s' heq => hne s' (Except.ok.inj heq))

end Walks

section Schedules

variable [Library] {W : Type}

def contributionOf : Except String (EffectOutcome × Walk) →
    List TaintEvent × List CandidateConstraint
  | .ok (_, s) => (s.taints, s.constraints)
  | .error _ => ([], [])

theorem meaningAll_of_alone {fixed : FixedAnswers} {phase : DispatchPhase} {bag : AttributeBag}
    {structured : StructuredInput} {alone : Effect → Except String (EffectOutcome × Walk)}
    {s : Walk} {es : List Effect}
    (h : ∀ e ∈ es, Settles s.branch (meaning fixed phase bag structured e) (alone e)) :
    (meaningAll fixed phase bag structured es = none ∧ ∃ e ∈ es, Stops (alone e)) ∨
      meaningAll fixed phase bag structured es =
          some (es.flatMap fun e => (contributionOf (alone e)).1,
            es.flatMap fun e => (contributionOf (alone e)).2) ∧
        ∀ e ∈ es, ¬ Stops (alone e) := by
  induction es with
  | nil =>
    rw [meaningAll]
    exact .inr ⟨rfl, by simp⟩
  | cons e es ih =>
    rw [meaningAll]
    have he := h e List.mem_cons_self
    cases hmeaning : meaning fixed phase bag structured e with
    | none =>
      rw [hmeaning] at he
      exact .inl ⟨rfl, e, List.mem_cons_self, he⟩
    | some added =>
      rw [hmeaning] at he
      obtain ⟨visits, halone⟩ := he
      rcases ih fun e' he' => h e' (List.mem_cons_of_mem _ he') with
        ⟨hnone, stopped, hmem, hstops⟩ | ⟨hsome, hgo⟩
      · rw [hnone]
        exact .inl ⟨rfl, stopped, List.mem_cons_of_mem _ hmem, hstops⟩
      · rw [hsome]
        refine .inr ⟨?_, List.forall_mem_cons.2 ⟨?_, hgo⟩⟩
        · simp [Meaning.both, halone, contributionOf, Walk.branch]
        · rw [halone]
          exact Bool.false_ne_true

/-- Whatever the schedule, an accepted block halts exactly when some branch on its own halts or
panics; otherwise it adds what the branches add, in order, and nothing else. -/
theorem parallel_schedule_independent (env : Invokers W) (fixed : FixedAnswers)
    (h : env.AnswerBy (fun _ => ()) fixed) (modeFor : String → Option PluginMode)
    (location : String) (effects : List Effect) (phase : DispatchPhase)
    (haccepted : ParallelAccepted modeFor location effects) (fallbackSource : String) (s : Walk)
    (w w' : W) :
    let alone e := (dispatchEffect env phase e fallbackSource s.branch w').1
    ∃ outcome s', (dispatchEffect env phase (.parallel effects) fallbackSource s w).1 =
        .ok (outcome, s') ∧
      (outcome.isHalt = true ↔ ∃ e ∈ effects, Stops (alone e)) ∧
      ((∀ e ∈ effects, ¬ Stops (alone e)) → outcome = .continue ∧
        s'.bag = s.bag ∧ s'.payload = s.payload ∧
        s'.taints = s.taints ++ effects.flatMap (fun e => (contributionOf (alone e)).1) ∧
        s'.constraints =
          s.constraints ++ effects.flatMap fun e => (contributionOf (alone e)).2) := by
  intro alone
  have hpure := haccepted.containsMutation
  obtain ⟨⟨outcome, s'⟩, _, hrun, -⟩ :=
    holds_dispatchEffect_parallel Task.yields fallbackSource s w
  have hparallel : (Effect.parallel effects).containsMutation = false := by
    rwa [Effect.containsMutation, Effect.anyContainsMutation_eq_false]
  have hsettles : Settles s (meaning fixed phase s.bag s.payload.structured (.parallel effects))
      (dispatchEffect env phase (.parallel effects) fallbackSource s w).1 :=
    (keeps_dispatchEffect h _ hparallel fallbackSource s rfl rfl w).1
  have halone : ∀ e ∈ effects, Settles s.branch (meaning fixed phase s.bag s.payload.structured e)
      (alone e) := fun e he =>
    (keeps_dispatchEffect h e (hpure e he) fallbackSource s.branch rfl rfl w').1
  rw [meaning] at hsettles
  rw [hrun] at hsettles ⊢
  refine ⟨outcome, s', rfl, ?_⟩
  rcases meaningAll_of_alone halone with ⟨hnone, hstops⟩ | ⟨hsome, hgo⟩
  · rw [hnone] at hsettles
    obtain ⟨e, he, hstop⟩ := hstops
    exact ⟨⟨fun _ => ⟨e, he, hstop⟩, fun _ => hsettles⟩, fun hgo => absurd hstop (hgo e he)⟩
  · rw [hsome] at hsettles
    obtain ⟨visits, hend⟩ := hsettles
    cases hend
    refine ⟨⟨fun hhalt => (by cases hhalt), ?_⟩, fun _ => ⟨rfl, rfl, rfl, rfl, rfl⟩⟩
    rintro ⟨e, he, hstop⟩
    exact absurd hstop (hgo e he)

end Schedules

section Cases

/-! Two plugins of which one panics; branches are joined in reverse. -/

local instance branchLibrary : Library := Library.ascii

def reverseJoin (n : ℕ) : Schedule n where
  order := (List.range n).reverse
  joins := List.reverse_perm _
  running _ := true
  late _ := false

def guardAnswers : FixedAnswers where
  plugin name _ _ := if name = "guard" then .error "out of bounds" else .ok (.ok ⟨.allow, [], none⟩)
  pdp _ _ _ := .timedOut

def guardInvokers : Invokers Unit :=
  { pendingInvokers .allow with
    plugin := fun name bag invocation w => (guardAnswers.plugin name bag invocation, w)
    pdp := fun call bag structured w => (guardAnswers.pdp call bag structured, w)
    schedule := fun n w => (reverseJoin n, w) }

def emptyWalk : Walk := ⟨.empty, ⟨.null, none, .default⟩, [], [], false, false, []⟩

theorem parallel_halts_on_panic : ∃ outcome s',
    (dispatchEffect guardInvokers .pre (.parallel [.plugin "audit", .plugin "guard"]) "" emptyWalk
      ()).1 = .ok (outcome, s') ∧ outcome.isHalt = true := by
  obtain ⟨outcome, s', hrun, hhalt, -⟩ := parallel_schedule_independent guardInvokers guardAnswers
    ⟨fun _ _ _ _ => ⟨rfl, rfl⟩, fun _ _ _ _ => ⟨rfl, rfl⟩, fun _ _ => rfl⟩
    (fun _ => some .concurrent) "routes.tool.pre_invocation[0]" [.plugin "audit", .plugin "guard"]
    .pre ⟨rfl, rfl⟩ "" emptyWalk () ()
  exact ⟨outcome, s', hrun, hhalt.2 ⟨.plugin "guard", by simp, trivial⟩⟩

end Cases

end PraxisPolicy
