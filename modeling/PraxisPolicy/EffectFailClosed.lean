import PraxisPolicy.EffectDispatch

/-!
# The effect walk is fail-closed

A visit is clean when it gives no reason to stop a request.  The one way past an effect that is not
clean is a `parallel:` branch that suspends on an elicitation.
-/

namespace PraxisPolicy

open JsonValues TextScanning WorldTasks

def Visit.Clean : Visit → Prop
  | .deny => False
  | .plugin _ answer => ∃ outcome, answer = .ok outcome ∧ outcome.decision = .allow
  | .pdp _ answer => ∃ result, answer = .ok result ∧ result.decision = .allow
  | .when _ value => ∃ b, value = .ok b
  | .restrict answer => ∃ c, answer = .ok c
  | .badFieldPath _ => False
  | .fieldTooWide _ => False
  | .field _ outcome => ∀ reason i, outcome ≠ .deny reason i
  | .delegate step answer =>
    (∃ outcome, answer = .ok outcome ∧ outcome.decision = .allow) ∨ step.continuesOnError = true
  | .elicit step verdict => verdict = .succeeded ∨ step.continuesOnError = true

def CleanSince (before after : List Visit) : Prop :=
  ∃ new, after = before ++ new ∧ ∀ v ∈ new, v.Clean

namespace CleanSince

theorem refl (visits : List Visit) : CleanSince visits visits := ⟨[], by simp⟩

theorem trans {a b c : List Visit} (h : CleanSince a b) (h' : CleanSince b c) :
    CleanSince a c := by
  obtain ⟨new, rfl, hnew⟩ := h
  obtain ⟨new', rfl, hnew'⟩ := h'
  refine ⟨new ++ new', by simp, fun v hv => ?_⟩
  rcases List.mem_append.mp hv with hv | hv
  · exact hnew v hv
  · exact hnew' v hv

theorem append {a : List Visit} {new : List Visit} (h : ∀ v ∈ new, v.Clean) :
    CleanSince a (a ++ new) := ⟨new, rfl, h⟩

theorem visit {a : List Visit} {v : Visit} (h : v.Clean) : CleanSince a (a ++ [v]) :=
  append (by simpa using h)

theorem clean_of_nil {visits : List Visit} (h : CleanSince [] visits) : ∀ v ∈ visits, v.Clean := by
  obtain ⟨new, rfl, hnew⟩ := h
  simpa using hnew

end CleanSince

structure FailsClosed (s : Walk) (r : EffectOutcome × Walk) : Prop where
  clean : r.1 = .continue → CleanSince s.visits r.2.visits
  denies : r.1 ≠ .halt .allow

namespace FailsClosed

variable {s s' : Walk}

theorem goOn (h : CleanSince s.visits s'.visits) :
    FailsClosed s (.continue, s') := ⟨fun _ => h, by simp⟩

theorem deny (reason : Option String) (source : String) :
    FailsClosed s (.halt (.deny reason source), s') := ⟨by simp, by simp⟩

theorem after {r : EffectOutcome × Walk} (h : CleanSince s.visits s'.visits)
    (hr : FailsClosed s' r) : FailsClosed s r :=
  ⟨fun hcont => h.trans (hr.clean hcont), hr.denies⟩

end FailsClosed

section Soundness

variable [Library] {W : Type} {env : Invokers W}

section Pieces

variable {bag : AttributeBag} {name : String} {phase : DispatchPhase} {stages : List Stage}

private theorem ensures_runStages (stages : List Stage) (idx : ℕ) (current : Json) (replaced : Bool)
    (taints : List TaintEvent) (visits : List Visit) :
    (runStages env bag name phase stages idx current replaced taints visits).Ensures fun e =>
      (∀ reason i, e.outcome ≠ .deny reason i) → CleanSince visits e.visits := by
  induction stages generalizing idx current replaced taints visits with
  | nil =>
    rw [runStages]
    exact Task.ensures_pure fun _ => .refl _
  | cons stage stages ih =>
    unfold runStages
    split
    · rename_i plugin
      refine Task.ensures_bind fun answer => ?_
      cases answer with
      | error e => exact Task.ensures_pure fun h => absurd rfl (h _ _)
      | ok outcome =>
        cases hdecision : outcome.decision with
        | deny reason source =>
          simp only [hdecision]
          exact Task.ensures_pure fun h => absurd rfl (h _ _)
        | allow =>
          simp only [hdecision]
          have hclean : CleanSince visits (visits ++ [.plugin plugin (.ok outcome)]) :=
            .visit ⟨outcome, rfl, hdecision⟩
          split
          · exact (ih _ _ _ _ _).mono fun e he hne => hclean.trans (he hne)
          · exact (ih _ _ _ _ _).mono fun e he hne => hclean.trans (he hne)
    · split
      · exact ih _ _ _ _ _
      · exact ih _ _ _ _ _
      · exact ih _ _ _ _ _
      · exact Task.ensures_pure fun _ => .refl _
      · exact Task.ensures_pure fun h => absurd rfl (h _ _)
      · exact ih _ _ _ _ _
      · exact ih _ _ _ _ _

theorem ensures_evaluatePipeline {value : Json} :
    (evaluatePipeline env stages value bag name phase).Ensures fun e =>
      (∀ reason i, e.outcome ≠ .deny reason i) → ∀ v ∈ e.visits, v.Clean :=
  (ensures_runStages stages 0 value false [] []).mono fun _ he hne => (he hne).clean_of_nil

omit [Library] in
@[simp] theorem Walk.rewrite_visits (s : Walk) (change : Json → Json × Bool) (side : Side) :
    (s.rewrite change side).visits = s.visits := by
  cases side <;> rfl

/-- A deny, or nothing but clean visits. -/
def LoopClosed (s : Walk) (r : Walk × Option EffectOutcome) : Prop :=
  FailsClosed s (r.2.getD .continue, r.1)

theorem ensures_fieldOpAt {start : Walk} {side : Side} {fallbackSource : String}
    (concrete : List String) (s : Walk) (h : LoopClosed start (s, none)) :
    (fieldOpAt env side name stages fallbackSource phase concrete s).Ensures
      (LoopClosed start) := by
  rw [fieldOpAt]
  split
  · exact Task.ensures_pure h
  · refine ensures_evaluatePipeline.bind fun eval heval => ?_
    have hclean : (∀ reason i, eval.outcome ≠ .deny reason i) →
        CleanSince start.visits (s.visits ++ eval.visits ++ [.field name eval.outcome]) :=
      fun hne => (h.clean rfl).trans ((CleanSince.append (heval hne)).trans (.visit hne))
    cases houtcome : eval.outcome with
    | deny reason i => exact Task.ensures_pure (.deny _ _)
    | pass | replace _ | «omit» =>
      rw [houtcome] at hclean
      exact Task.ensures_pure (.goOn (by simpa using hclean (by simp)))

omit [Library] in
theorem ensures_dispatchDelegation (step : DelegateStep) (s : Walk) :
    (dispatchDelegation env step s).Ensures (FailsClosed s) := by
  rw [dispatchDelegation]
  refine Task.ensures_bind fun answer => ?_
  have hvisit : step.continuesOnError = true →
      CleanSince s.visits (s.visits ++ [.delegate step answer]) := fun h => .visit (.inr h)
  cases answer with
  | error e =>
    refine Task.ensures_pure ?_
    cases hcont : step.continuesOnError with
    | true => exact .goOn (hvisit hcont)
    | false => exact .deny _ _
  | ok outcome =>
    cases hdecision : outcome.decision with
    | allow =>
      simp only [hdecision]
      exact Task.ensures_pure (.goOn (.visit (.inl ⟨outcome, rfl, hdecision⟩)))
    | deny reason source =>
      simp only [hdecision]
      refine Task.ensures_pure ?_
      cases hcont : step.continuesOnError with
      | true => exact .goOn (hvisit hcont)
      | false => exact .deny _ _

private structure ElicitSound (step : ElicitStep)
    (r : EffectOutcome × AttributeBag × ElicitVerdict) : Prop where
  continues : r.1 = .continue → r.2.2 = .succeeded ∨ step.continuesOnError = true
  denies : r.1 ≠ .halt .allow

omit [Library] in
private theorem ElicitSound.failWithCode (step : ElicitStep) (reason : String)
    (code : Option String) (bag : AttributeBag) (verdict : ElicitVerdict) :
    ElicitSound step (step.failWithCode reason code, bag, verdict) := by
  rw [ElicitStep.failWithCode]
  cases hcont : step.continuesOnError with
  | true => exact ⟨fun _ => .inr hcont, by simp⟩
  | false => exact ⟨by simp, by simp⟩

omit [Library] in
private theorem ElicitSound.invocationFailure (step : ElicitStep) (op : String)
    (error : ElicitationError) (bag : AttributeBag) (verdict : ElicitVerdict) :
    ElicitSound step (step.invocationFailure op error, bag, verdict) := by
  cases error with
  | storeUnavailable code reason =>
    exact ⟨by simp [ElicitStep.invocationFailure], by simp [ElicitStep.invocationFailure]⟩
  | notFound _ | handler _ | handlerViolation _ _ => exact .failWithCode step _ _ bag verdict

private theorem ensures_settleElicitation (step : ElicitStep) (id : String) (bag : AttributeBag) :
    (settleElicitation env step id bag).Ensures (ElicitSound step) := by
  rw [settleElicitation]
  refine Task.ensures_bind fun status => ?_
  split
  · exact Task.ensures_pure (.invocationFailure step _ _ _ _)
  · exact Task.ensures_pure ⟨by simp, by simp⟩
  · exact Task.ensures_pure (.failWithCode step _ _ _ _)
  · exact Task.ensures_pure ⟨by simp, by simp⟩
  · refine Task.ensures_bind fun validation => ?_
    split
    · exact Task.ensures_pure (.invocationFailure step _ _ _ _)
    · split
      · split
        · exact Task.ensures_pure (.failWithCode step _ _ _ _)
        · exact Task.ensures_pure ⟨fun _ => .inl rfl, by simp⟩
      · exact Task.ensures_pure (.failWithCode step _ _ _ _)

private theorem ensures_dispatchElicitation (step : ElicitStep) (bag : AttributeBag) :
    (dispatchElicitation env step bag).Ensures (ElicitSound step) := by
  rw [dispatchElicitation]
  split
  · exact Task.ensures_pure (.failWithCode step _ _ _ _)
  · split
    · exact ensures_settleElicitation step _ bag
    · refine Task.ensures_bind fun answer => ?_
      cases answer with
      | ok d => exact ensures_settleElicitation step _ _
      | error e => exact Task.ensures_pure (.invocationFailure step _ _ _ _)

theorem ensures_dispatchFieldSide {side : Side} {root : Json} {path subpath : String}
    {fallbackSource : String} (s : Walk) :
    (dispatchFieldSide env side root path subpath stages fallbackSource phase s).Ensures
      (FailsClosed s) := by
  rw [dispatchFieldSide]
  split
  · exact Task.ensures_pure (.deny _ _)
  · refine (Task.ensures_forEach ensures_fieldOpAt _ (.goOn (.refl _))).bind fun r hr => ?_
    exact Task.ensures_pure hr

theorem ensures_dispatchFieldOp {path : String} {fallbackSource : String} (s : Walk) :
    (dispatchFieldOp env path stages fallbackSource phase s).Ensures (FailsClosed s) := by
  have hskip : (pure (.continue, s) : Task W _).Ensures (FailsClosed s) :=
    Task.ensures_pure (.goOn (.refl _))
  rw [dispatchFieldOp]
  split
  · split
    · exact ensures_dispatchFieldSide s
    · exact hskip
  · split
    · split
      · exact ensures_dispatchFieldSide s
      · exact hskip
    · exact hskip
  · exact Task.ensures_pure (.deny _ _)

end Pieces

section Branches

/-- It does not suspend, halts only with a deny, and was clean if it continues. -/
structure BranchSound (r : EffectOutcome × Walk) : Prop where
  clean : r.1 = .continue → ∀ v ∈ r.2.visits, v.Clean
  denies : r.1 ≠ .halt .allow
  settles : ∀ bundle, r.1 ≠ .pending bundle

variable {fallbackSource : String} {e : (Effect × BranchOutcome (EffectOutcome × Walk)) × ℕ}
  {effects : List Effect} {acc : Walk × Option Decision}
  {outcomes : List (BranchOutcome (EffectOutcome × Walk))}
  {runs : List (Except String (EffectOutcome × Walk))}

private theorem mergeBranch_firstHalt (h : (mergeBranch fallbackSource acc e).2 = none) :
    acc.2 = none ∧ e.1.2.Passed fun r => r.1.isHalt := by
  obtain ⟨s, firstHalt⟩ := acc
  obtain ⟨⟨effect, outcome⟩, idx⟩ := e
  cases outcome with
  | aborted => exact ⟨h, trivial⟩
  | timedOut => simp [mergeBranch] at h
  | panicked message => simp [mergeBranch] at h
  | completed r =>
    obtain ⟨o, branch⟩ := r
    simp only [mergeBranch, Option.or_eq_none_iff] at h
    refine ⟨h.1, ?_⟩
    cases o with
    | halt d => exact absurd h.2 (by simp)
    | «continue» | pending _ => rfl

private theorem foldl_mergeBranch_firstHalt
    (es : List ((Effect × BranchOutcome (EffectOutcome × Walk)) × ℕ)) (acc : Walk × Option Decision)
    (h : (es.foldl (mergeBranch fallbackSource) acc).2 = none) :
    acc.2 = none ∧ ∀ e ∈ es, e.1.2.Passed fun r => r.1.isHalt := by
  induction es generalizing acc with
  | nil => exact ⟨h, by simp⟩
  | cons e es ih =>
    obtain ⟨hacc, hrest⟩ := ih _ h
    obtain ⟨hfirst, hpassed⟩ := mergeBranch_firstHalt hacc
    exact ⟨hfirst, List.forall_mem_cons.mpr ⟨hpassed, hrest⟩⟩

theorem passed_of_firstHalt_eq_none {s : Walk} (hlength : outcomes.length = effects.length)
    (hhalt : (((effects.zip outcomes).zipIdx).foldl (mergeBranch fallbackSource) (s, none)).2 = none) :
    ∀ o ∈ outcomes, o.Passed fun r => r.1.isHalt := by
  intro o ho
  rw [← List.map_snd_zip hlength.le] at ho
  obtain ⟨p, hp, rfl⟩ := List.mem_map.mp ho
  rw [← List.zipIdx_map_fst 0 (effects.zip outcomes)] at hp
  obtain ⟨e, he, rfl⟩ := List.mem_map.mp hp
  exact (foldl_mergeBranch_firstHalt _ _ hhalt).2 e he

private theorem mergeBranch_visits (fallbackSource : String) (acc : Walk × Option Decision)
    (h : ∀ r, e.1.2 = .completed r → ∀ v ∈ r.2.visits, v.Clean) :
    CleanSince acc.1.visits (mergeBranch fallbackSource acc e).1.visits := by
  obtain ⟨s, firstHalt⟩ := acc
  obtain ⟨⟨effect, outcome⟩, idx⟩ := e
  cases outcome with
  | aborted | timedOut | panicked _ => exact .refl _
  | completed r => exact .append (h r rfl)

private theorem mergeBranch_denies (hacc : acc.2 ≠ some .allow)
    (h : ∀ r, e.1.2 = .completed r → r.1 ≠ .halt .allow) :
    (mergeBranch fallbackSource acc e).2 ≠ some .allow := by
  obtain ⟨s, firstHalt⟩ := acc
  obtain ⟨⟨effect, outcome⟩, idx⟩ := e
  cases firstHalt with
  | some d =>
    have hd : some d ≠ some .allow := hacc
    cases outcome <;> simpa [mergeBranch] using hd
  | none =>
    cases outcome with
    | aborted | timedOut | panicked _ => simp [mergeBranch]
    | completed r =>
      obtain ⟨o, branch⟩ := r
      have ho := h (o, branch) rfl
      cases o with
      | halt d => simpa [mergeBranch] using ho
      | «continue» | pending _ => simp [mergeBranch]

theorem ensures_joinBranches (s : Walk)
    (hlength : runs.length = effects.length) (hsound : ∀ r, .ok r ∈ runs → BranchSound r) :
    (joinBranches env effects fallbackSource runs s).Ensures (FailsClosed s) := by
  rw [joinBranches]
  refine Task.ensures_bind fun sched => ?_
  dsimp only
  split
  · rename_i d hd
    refine Task.ensures_pure ⟨by simp, fun hallow => ?_⟩
    refine List.foldlRecOn (motive := fun acc : Walk × Option Decision => acc.2 ≠ some .allow)
      _ _ (by simp)
      (fun acc hacc e he => mergeBranch_denies hacc fun r hr => ?_)
      (hd.trans (congrArg some (EffectOutcome.halt.inj hallow)))
    have hmem := (List.of_mem_zip (List.fst_mem_of_mem_zipIdx he)).2
    rw [hr] at hmem
    exact (hsound r (ok_mem_of_completed_mem hmem)).denies
  · rename_i hhalt
    have hpassed := (foldl_mergeBranch_firstHalt _ _ hhalt).2
    have hall := passed_of_firstHalt_eq_none (by simp [runBranches, hlength]) hhalt
    obtain ⟨values, hruns, hvalues⟩ := runBranches_eq_map_completed hall
    refine Task.ensures_pure (.goOn (List.foldlRecOn
      (motive := fun acc : Walk × Option Decision => CleanSince s.visits acc.1.visits) _ _ (.refl _)
      fun acc hacc e he => hacc.trans (mergeBranch_visits _ acc fun r hr => ?_)))
    have hmem := (List.of_mem_zip (List.fst_mem_of_mem_zipIdx he)).2
    have hrun : .ok r ∈ runs := by
      rw [hr, hvalues] at hmem
      rw [hruns]
      simpa using hmem
    have hgo : r.1.isHalt = false := by
      have := hpassed e he
      rwa [hr] at this
    apply (hsound r hrun).clean
    cases hr1 : r.1 with
    | «continue» => rfl
    | halt d => simp [hr1, EffectOutcome.isHalt] at hgo
    | pending bundle => exact absurd hr1 ((hsound r hrun).settles bundle)

end Branches

section Walks

attribute [local simp] dispatchEffect dispatchList dispatchBranches

variable {phase : DispatchPhase} {es : List Effect}

def NotPending (r : EffectOutcome × Walk) : Prop := ∀ bundle, r.1 ≠ .pending bundle

section Logic

variable (logic : Task.Logic W) (fallbackSource : String) (s : Walk)

omit [Library] in
theorem holds_evaluatePdpContained (call : PdpCall) (bag : AttributeBag)
    (structured : StructuredInput) :
    logic.Holds (evaluatePdpContained env call bag structured) fun _ => True := by
  unfold evaluatePdpContained
  split
  · exact logic.pure trivial
  · split
    · exact logic.pure trivial
    · refine logic.bind (logic.call _) fun reply _ => ?_
      cases reply <;> exact logic.pure trivial

theorem holds_dispatchBranches :
    logic.Holds (dispatchBranches env phase es fallbackSource s) fun _ => True := by
  induction es with
  | nil =>
    rw [dispatchBranches]
    exact logic.pure trivial
  | cons e es ih =>
    rw [dispatchBranches]
    exact logic.bind (logic.contain _) fun _ _ => logic.bind ih fun _ _ => logic.pure trivial

theorem holds_dispatchEffect_parallel :
    logic.Holds (dispatchEffect env phase (.parallel es) fallbackSource s) NotPending := by
  rw [dispatchEffect]
  split
  · exact logic.pure fun _ h => nomatch h
  · refine logic.bind (holds_dispatchBranches logic fallbackSource s) fun runs _ =>
      logic.bind (logic.call _) fun sched _ => ?_
    dsimp only
    split <;> exact logic.pure fun _ h => nomatch h

theorem holds_dispatchList
    (h : ∀ e ∈ es, ∀ fallbackSource s,
      logic.Holds (dispatchEffect env phase e fallbackSource s) NotPending) :
    logic.Holds (dispatchList env phase es fallbackSource s) NotPending := by
  induction es generalizing s with
  | nil =>
    rw [dispatchList]
    exact logic.pure fun _ h => nomatch h
  | cons e es ih =>
    rw [dispatchList]
    refine logic.bind (h e List.mem_cons_self fallbackSource s) fun r hr => ?_
    split
    · exact ih _ fun e' he' => h e' (List.mem_cons_of_mem _ he')
    · exact logic.pure hr

/-- An effect without mutations does not suspend, and returns if the plugins do. -/
theorem holds_dispatchEffect
    (hplugin : ∀ name bag, logic.Holds (env.plugin name bag (.step phase)) fun _ => True) (e : Effect)
    (hpure : e.containsMutation = false) :
    logic.Holds (dispatchEffect env phase e fallbackSource s) NotPending := by
  induction e using Effect.induction generalizing fallbackSource s with
  | delegate _ | elicit _ | fieldOp _ _ => simp [Effect.containsMutation] at hpure
  | allow | deny _ _ | taint _ _ =>
    rw [dispatchEffect]
    exact logic.pure fun _ h => nomatch h
  | plugin name =>
    rw [dispatchEffect]
    refine logic.bind (hplugin name s.bag) fun answer _ => ?_
    rcases answer with e | ⟨_ | ⟨reason, source⟩, taints, value⟩ <;>
      exact logic.pure fun _ h => nomatch h
  | restrict spec =>
    rw [dispatchEffect]
    split <;> exact logic.pure fun _ h => nomatch h
  | sequential es ih =>
    rw [Effect.containsMutation, Effect.anyContainsMutation_eq_false] at hpure
    rw [dispatchEffect]
    exact holds_dispatchList logic fallbackSource s fun e he _ _ => ih e he _ _ (hpure e he)
  | parallel es ih => exact holds_dispatchEffect_parallel logic fallbackSource s
  | when condition body source ih =>
    rw [Effect.containsMutation, Effect.anyContainsMutation_eq_false] at hpure
    rw [dispatchEffect]
    split
    · exact logic.pure fun _ h => nomatch h
    · exact logic.pure fun _ h => nomatch h
    · exact holds_dispatchList logic source _ fun e he _ _ => ih e he _ _ (hpure e he)
  | pdp call onAllow onDeny ihAllow ihDeny =>
    rw [Effect.containsMutation, Bool.or_eq_false_iff, Effect.anyContainsMutation_eq_false,
      Effect.anyContainsMutation_eq_false] at hpure
    rw [dispatchEffect]
    refine logic.bind (holds_evaluatePdpContained logic call s.bag _) fun answer _ => ?_
    rcases answer with e | ⟨_ | ⟨reason, source⟩, diagnostics⟩
    · exact logic.pure fun _ h => nomatch h
    · exact holds_dispatchList logic fallbackSource _ fun e he _ _ => ihAllow e he _ _ (hpure.1 e he)
    · refine logic.bind (holds_dispatchList logic fallbackSource _ fun e he _ _ =>
        ihDeny e he _ _ (hpure.2 e he)) fun r hr => ?_
      split
      · exact logic.pure fun _ h => nomatch h
      · exact logic.pure hr

end Logic

private theorem ensures_dispatchList (h : ∀ e ∈ es, ∀ fallbackSource s,
      (dispatchEffect env phase e fallbackSource s).Ensures (FailsClosed s))
    (fallbackSource : String) (s : Walk) :
    (dispatchList env phase es fallbackSource s).Ensures (FailsClosed s) := by
  induction es generalizing s with
  | nil =>
    rw [dispatchList]
    exact Task.ensures_pure (.goOn (.refl _))
  | cons e es ih =>
    rw [dispatchList]
    refine (h e List.mem_cons_self fallbackSource s).bind fun r hr => ?_
    split
    · rename_i s'
      have htail := ih (fun e' he' => h e' (List.mem_cons_of_mem _ he')) s'
      exact htail.mono fun r' hr' => hr'.after (hr.clean rfl)
    · exact Task.ensures_pure hr

private theorem ensures_dispatchBranches
    (h : ∀ e ∈ es, e.containsMutation = false ∧ ∀ fallbackSource s,
      (dispatchEffect env phase e fallbackSource s).Ensures (FailsClosed s))
    (fallbackSource : String) (s : Walk) :
    (dispatchBranches env phase es fallbackSource s).Ensures fun runs =>
      runs.length = es.length ∧ ∀ r, .ok r ∈ runs → BranchSound r := by
  induction es with
  | nil =>
    rw [dispatchBranches]
    exact Task.ensures_pure ⟨rfl, by simp⟩
  | cons e es ih =>
    obtain ⟨hpure, hclosed⟩ := h e List.mem_cons_self
    have hbranch : (dispatchEffect env phase e fallbackSource s.branch).Ensures BranchSound :=
      ((hclosed fallbackSource s.branch).and
        (holds_dispatchEffect Task.ensures _ _ (fun _ _ _ _ _ _ => trivial) e hpure)).mono
        fun r hr => ⟨fun hcont => (hr.1.clean hcont).clean_of_nil, hr.1.denies, hr.2⟩
    rw [dispatchBranches]
    refine hbranch.contain.bind fun run hrun => ?_
    refine (ih fun e' he' => h e' (List.mem_cons_of_mem _ he')).bind fun runs hruns => ?_
    refine Task.ensures_pure ⟨by simp [hruns.1], fun r hr => ?_⟩
    rcases List.mem_cons.mp hr with heq | hmem
    · exact hrun r heq.symm
    · exact hruns.2 r hmem

private theorem ensures_plugin (name fallbackSource : String) (s : Walk) :
    (dispatchEffect env phase (.plugin name) fallbackSource s).Ensures (FailsClosed s) := by
  rw [dispatchEffect]
  refine Task.ensures_bind fun answer => ?_
  cases answer with
  | error e => exact Task.ensures_pure (.deny _ _)
  | ok outcome =>
    cases hdecision : outcome.decision with
    | allow =>
      simp only [hdecision]
      exact Task.ensures_pure (.goOn (.visit ⟨outcome, rfl, hdecision⟩))
    | deny reason source =>
      simp only [hdecision]
      exact Task.ensures_pure (.deny _ _)

private theorem ensures_restrict (spec : RestrictSpec) (fallbackSource : String) (s : Walk) :
    (dispatchEffect env phase (.restrict spec) fallbackSource s).Ensures (FailsClosed s) := by
  rw [dispatchEffect]
  cases hresolve : spec.resolve s.bag with
  | error e =>
    simp only [Walk.visit, hresolve]
    exact Task.ensures_pure (.deny _ _)
  | ok c =>
    have hclean : CleanSince s.visits (s.visits ++ [.restrict (.ok c)]) := .visit ⟨c, rfl⟩
    simp only [Walk.visit, hresolve]
    refine Task.ensures_pure (.goOn ?_)
    split
    · exact hclean
    · exact hclean

private theorem ensures_when {c : Expression} {body : List Effect} {source : String}
    (hbody : ∀ fallbackSource s,
      (dispatchList env phase body fallbackSource s).Ensures (FailsClosed s))
    (fallbackSource : String) (s : Walk) :
    (dispatchEffect env phase (.when c body source) fallbackSource s).Ensures (FailsClosed s) := by
  rw [dispatchEffect]
  simp only [Walk.visit]
  cases hc : evalExpression s.bag c with
  | error err => exact Task.ensures_pure (.deny _ _)
  | ok b =>
    have hclean : CleanSince s.visits (s.visits ++ [.when source (.ok b)]) := .visit ⟨b, rfl⟩
    cases b with
    | false => exact Task.ensures_pure (.goOn hclean)
    | true => exact (hbody source _).mono fun r hr => hr.after hclean

private theorem ensures_pdp {call : PdpCall} {onAllow onDeny : List Effect}
    (hAllow : ∀ fallbackSource s,
      (dispatchList env phase onAllow fallbackSource s).Ensures (FailsClosed s))
    (hDeny : ∀ fallbackSource s,
      (dispatchList env phase onDeny fallbackSource s).Ensures (FailsClosed s))
    (fallbackSource : String) (s : Walk) :
    (dispatchEffect env phase (.pdp call onAllow onDeny) fallbackSource s).Ensures
      (FailsClosed s) := by
  rw [dispatchEffect]
  refine Task.ensures_bind fun answer => ?_
  cases answer with
  | error e => exact Task.ensures_pure (.deny _ _)
  | ok result =>
    cases hdecision : result.decision with
    | allow =>
      have hclean : CleanSince s.visits (s.visits ++ [.pdp call (.ok result)]) :=
        .visit ⟨result, rfl, hdecision⟩
      simp only [hdecision]
      exact (hAllow fallbackSource _).mono fun r hr => hr.after hclean
    | deny reason source =>
      simp only [hdecision]
      refine (hDeny fallbackSource _).bind fun r hr => ?_
      -- reactions that run through leave the deny in place
      split
      · exact Task.ensures_pure (.deny _ _)
      · rename_i hother
        exact Task.ensures_pure
          ⟨fun hcont => (hother r.2 (Prod.ext hcont rfl)).elim, hr.denies⟩

theorem ensures_dispatchEffect (e : Effect) (hpure : e.validateParallelPurity = .ok ())
    (fallbackSource : String) (s : Walk) :
    (dispatchEffect env phase e fallbackSource s).Ensures (FailsClosed s) := by
  induction e using Effect.induction generalizing fallbackSource s with
  | allow | taint _ _ =>
    rw [dispatchEffect]
    exact Task.ensures_pure (.goOn (.refl _))
  | deny reason code =>
    rw [dispatchEffect]
    exact Task.ensures_pure (.deny _ _)
  | plugin name => exact ensures_plugin name fallbackSource s
  | delegate step =>
    rw [dispatchEffect]
    exact ensures_dispatchDelegation step s
  | elicit step =>
    rw [dispatchEffect]
    refine (ensures_dispatchElicitation step s.bag).bind fun r hr => ?_
    exact Task.ensures_pure ⟨fun hcont => .visit (hr.continues hcont), hr.denies⟩
  | restrict spec => exact ensures_restrict spec fallbackSource s
  | fieldOp path stages =>
    rw [dispatchEffect]
    exact ensures_dispatchFieldOp s
  | sequential es ih =>
    rw [Effect.validateParallelPurity, Effect.validateEach_ok_iff] at hpure
    rw [dispatchEffect]
    exact ensures_dispatchList (fun e he => ih e he (hpure e he)) fallbackSource s
  | parallel es ih =>
    rw [Effect.validateParallelPurity, Effect.validateBranches_ok_iff] at hpure
    rw [dispatchEffect]
    split
    · exact Task.ensures_pure (.goOn (.refl _))
    · have hbranches := ensures_dispatchBranches
        (fun e he => ⟨(hpure e he).1, ih e he (hpure e he).2⟩) fallbackSource s
      exact hbranches.bind fun runs hruns => ensures_joinBranches s hruns.1 hruns.2
  | when c body source ih =>
    rw [Effect.validateParallelPurity, Effect.validateEach_ok_iff] at hpure
    exact ensures_when (ensures_dispatchList fun e he => ih e he (hpure e he)) fallbackSource s
  | pdp call onAllow onDeny ihAllow ihDeny =>
    obtain ⟨hpureAllow, hpureDeny⟩ := Effect.validateParallelPurity_pdp_ok_iff.mp hpure
    exact ensures_pdp (ensures_dispatchList fun e he => ihAllow e he (hpureAllow e he))
      (ensures_dispatchList fun e he => ihDeny e he (hpureDeny e he)) fallbackSource s

private theorem ensures_runPhase {effects : List Effect}
    (hpure : ∀ e ∈ effects, e.validateParallelPurity = .ok ()) (s : Walk) :
    (runPhase env phase effects s).Ensures fun r =>
      r.1.decision = .allow → r.1.pending = none → CleanSince s.visits r.2.visits := by
  induction effects generalizing s with
  | nil =>
    rw [runPhase]
    exact Task.ensures_pure fun _ _ => .refl _
  | cons e es ih =>
    rw [runPhase]
    refine (ensures_dispatchEffect e (hpure e List.mem_cons_self) _ s).bind fun r hr => ?_
    split
    · rename_i s'
      have htail := ih (fun e' he' => hpure e' (List.mem_cons_of_mem _ he')) s'
      exact htail.mono fun r' hr' hallow hnone => (hr.clean rfl).trans (hr' hallow hnone)
    · exact Task.ensures_pure fun hallow _ => absurd (congrArg EffectOutcome.halt hallow) hr.denies
    · exact Task.ensures_pure fun _ hnone => nomatch hnone

end Walks

/-- A phase over validated effects that allows, without a suspension, met no deny, no failing call,
no undecidable condition, no unresolved restriction and no refusing pipeline. -/
theorem evaluateEffects_fail_closed (env : Invokers W) (effects : List Effect)
    (bag : AttributeBag) (phase : DispatchPhase) (payload : RoutePayload)
    (hpure : ∀ e ∈ effects, e.validateParallelPurity = .ok ()) (w w' : W)
    (eval : StepsEvaluation) (walk : Walk)
    (hrun : evaluateEffects env effects bag phase payload w = (.ok (eval, walk), w'))
    (hallow : eval.decision = .allow) (hpending : eval.pending = none) :
    ∀ v ∈ walk.visits, v.Clean :=
  (ensures_runPhase hpure _ w (eval, walk) w' hrun hallow hpending).clean_of_nil

end Soundness

def cedarCall : PdpCall := ⟨.cedar, .null⟩

def askManager : Effect := .elicit
  { kind := .approval, pluginName := "approver", channel := none, fromRef := "alice@corp.com",
    purpose := none, scope := none, timeout := none, configOverride := none, onError := none,
    source := "pre[0]" }

def emptyPayload : RoutePayload := ⟨.object [], none, .default⟩

def suspendingBranch : Effect := .parallel [.pdp cedarCall [] [askManager]]

theorem evaluateEffects_allows_suspendingBranch :
    ∃ eval walk, @evaluateEffects Library.ascii Unit
        (pendingInvokers (.deny (some "forbidden") "cedar")) [suspendingBranch]
        AttributeBag.empty .pre emptyPayload () = (.ok (eval, walk), ()) ∧
      eval.decision = .allow ∧ eval.pending = none ∧
      ∃ v ∈ walk.visits, ¬ v.Clean := by
  refine ⟨_, _, rfl, rfl, rfl, .pdp cedarCall (.ok ⟨.deny (some "forbidden") "cedar", []⟩), ?_, ?_⟩
  · exact List.mem_cons_self
  · rintro ⟨result, hresult, hallow⟩
    cases hresult
    cases hallow

def auditedCall : List Effect :=
  [.pdp cedarCall [.plugin "audit"] [.deny none none],
    .parallel [.plugin "scan", .when .always [.plugin "notify"] "rule[1]"]]

theorem evaluateEffects_fail_closed_auditedCall :
    ∃ eval walk, @evaluateEffects Library.ascii Unit (pendingInvokers .allow) auditedCall
        AttributeBag.empty .pre emptyPayload () = (.ok (eval, walk), ()) ∧
      walk.visits.length = 5 ∧ ∀ v ∈ walk.visits, v.Clean := by
  have hends : ∃ r : StepsEvaluation × Walk,
      @evaluateEffects Library.ascii Unit (pendingInvokers .allow) auditedCall
        AttributeBag.empty .pre emptyPayload () = (.ok r, ()) ∧
      r.1.decision = .allow ∧ r.1.pending = none ∧ r.2.visits.length = 5 :=
    ⟨_, rfl, rfl, rfl, rfl⟩
  obtain ⟨⟨eval, walk⟩, hrun, hallow, hpending, hlength⟩ := hends
  refine ⟨eval, walk, hrun, hlength, ?_⟩
  exact @evaluateEffects_fail_closed Library.ascii Unit (pendingInvokers .allow) auditedCall _ _ _
    (Effect.validateEach_ok_iff.mp rfl) () () eval walk hrun hallow hpending

end PraxisPolicy
