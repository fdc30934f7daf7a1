import PraxisPolicy.RoutePhases

/-!
# What a route leaves alone

A phase changes its own side of the payload only, and reports that it did.
-/

namespace PraxisPolicy

open JsonValues WorldTasks

section Walks

def Walk.on (s : Walk) : Side → Option Json × Bool
  | .args => (s.payload.side .args, s.argsModified)
  | .result => (s.payload.side .result, s.resultModified)

def Side.phase : Side → DispatchPhase
  | .args => .pre
  | .result => .post

/-- A side that is not marked, or not of this phase, is as it was. -/
def Frame (phase : DispatchPhase) (s s' : Walk) : Prop :=
  ∀ side : Side, (s'.on side).2 = false ∨ side.phase ≠ phase → s'.on side = s.on side

def FieldRun.Frame (run run' : FieldRun) : Prop :=
  run'.modified = false → run.modified = false ∧ run'.root = run.root

variable {phase : DispatchPhase} {s s' s'' : Walk} {run run' run'' : FieldRun}

theorem Frame.trans (h : Frame phase s s') (h' : Frame phase s' s'') : Frame phase s s'' := by
  intro side hside
  have hlast := h' side hside
  rw [hlast] at hside ⊢
  exact h side hside

theorem FieldRun.Frame.trans (h : run.Frame run') (h' : run'.Frame run'') : run.Frame run'' := by
  intro hmodified
  obtain ⟨hmodified, hroot⟩ := h' hmodified
  rw [hroot]
  exact h hmodified

def Reports (change : Json → Json × Bool) : Prop :=
  ∀ root, (change root).2 = false → (change root).1 = root

theorem reports_setConcrete (path : List String) (value : Json) :
    Reports (setConcrete · path value) := by
  intro root h
  grind [setConcrete]

theorem reports_removeConcrete (path : List String) : Reports (removeConcrete · path) := by
  intro root h
  grind [removeConcrete]

theorem Frame.rewrite {side : Side} {change : Json → Json × Bool} (hchange : Reports change) :
    Frame side.phase s (s.rewrite change side) := by
  intro other hother
  rcases hresult : s.payload.result with _ | result <;> cases side <;> cases other <;>
    grind [Walk.on, Walk.rewrite, Side.phase, RoutePayload.side, Reports]

theorem FieldRun.Frame.write {change : Json → Json × Bool} (hchange : Reports change) :
    run.Frame (run.write (change run.root)) := by
  intro h
  obtain ⟨hrun, hwritten⟩ := Bool.or_eq_false_iff.1 h
  exact ⟨hrun, hchange run.root hwritten⟩

variable [Library] {W : Type} {env : Invokers W}

theorem frame_fieldOpAt (side : Side) (subpath : String) (stages : List Stage)
    (fallbackSource : String) (concrete : List String) (s' : Walk) (h : Frame side.phase s s') :
    (fieldOpAt env side subpath stages fallbackSource side.phase concrete s').Ensures
      fun r => Frame side.phase s r.1 := by
  rw [fieldOpAt]
  split
  · exact Task.ensures_pure h
  · refine Task.ensures_bind fun eval => ?_
    dsimp only
    split
    · exact Task.ensures_pure h
    · exact Task.ensures_pure (h.trans (.rewrite (reports_setConcrete _ _)))
    · exact Task.ensures_pure (h.trans (.rewrite (reports_removeConcrete _)))
    · exact Task.ensures_pure h

theorem frame_dispatchFieldSide (side : Side) (root : Json) (path subpath : String)
    (stages : List Stage) (fallbackSource : String) :
    (dispatchFieldSide env side root path subpath stages fallbackSource side.phase s).Ensures
      fun r => Frame side.phase s r.2 := by
  unfold dispatchFieldSide
  split
  · exact Task.ensures_pure fun _ _ => rfl
  · refine (Task.ensures_forEach (P := fun r => Frame side.phase s r.1)
      (frame_fieldOpAt side subpath stages fallbackSource) _ fun _ _ => rfl).bind fun r hr => ?_
    exact Task.ensures_pure hr

theorem frame_dispatchFieldOp (path : String) (stages : List Stage) (source : String) (s : Walk) :
    (dispatchFieldOp env path stages source phase s).Ensures fun r => Frame phase s r.2 := by
  unfold dispatchFieldOp
  split
  · split_ifs with hphase
    · subst hphase
      exact frame_dispatchFieldSide (s := s) .args _ _ _ _ _
    · exact Task.ensures_pure fun _ _ => rfl
  · split_ifs with hphase
    · subst hphase
      split
      · exact frame_dispatchFieldSide (s := s) .result _ _ _ _ _
      · exact Task.ensures_pure fun _ _ => rfl
    · exact Task.ensures_pure fun _ _ => rfl
  · exact Task.ensures_pure fun _ _ => rfl

theorem frame_joinBranches (effects : List Effect) (fallbackSource : String)
    (runs : List (Except String (EffectOutcome × Walk))) (s : Walk) :
    (joinBranches env effects fallbackSource runs s).Ensures fun r => Frame phase s r.2 := by
  refine Task.ensures_bind fun sched => ?_
  have hmerged : Frame phase s (((effects.zip (runBranches runs parallelConfig (fun r => r.1.isHalt)
      sched)).zipIdx.foldl (mergeBranch fallbackSource) (s, none)).1) := by
    refine List.foldlRecOn (motive := fun acc : Walk × Option Decision => Frame phase s acc.1) _ _
      (fun _ _ => rfl) fun acc hacc e _ => ?_
    obtain ⟨⟨effect, outcome⟩, idx⟩ := e
    cases outcome <;> exact hacc
  dsimp only
  split <;> exact Task.ensures_pure hmerged

theorem frame_dispatchList {es : List Effect} (h : ∀ e ∈ es, ∀ fallbackSource s,
      (dispatchEffect env phase e fallbackSource s).Ensures fun r => Frame phase s r.2)
    (fallbackSource : String) (s : Walk) :
    (dispatchList env phase es fallbackSource s).Ensures fun r => Frame phase s r.2 := by
  induction es generalizing s with
  | nil =>
    rw [dispatchList]
    exact Task.ensures_pure fun _ _ => rfl
  | cons e es ih =>
    rw [List.forall_mem_cons] at h
    rw [dispatchList]
    refine (h.1 fallbackSource s).bind fun r hr => ?_
    split
    · exact (ih h.2 _).mono fun r' => hr.trans
    · exact Task.ensures_pure hr

theorem frame_dispatchEffect (e : Effect) (fallbackSource : String) (s : Walk) :
    (dispatchEffect env phase e fallbackSource s).Ensures fun r => Frame phase s r.2 := by
  induction e using Effect.induction generalizing fallbackSource s with
  | allow | deny _ _ | taint _ _ =>
    rw [dispatchEffect]
    exact Task.ensures_pure fun _ _ => rfl
  | plugin name =>
    rw [dispatchEffect]
    refine Task.ensures_bind fun answer => ?_
    rcases answer with e | ⟨_ | ⟨reason, source⟩, taints, value⟩ <;>
      exact Task.ensures_pure fun _ _ => rfl
  | delegate step =>
    rw [dispatchEffect]
    refine Task.ensures_bind fun answer => ?_
    rcases answer with e | ⟨_ | ⟨reason, source⟩, outcome⟩ <;>
      exact Task.ensures_pure fun _ _ => rfl
  | elicit step =>
    rw [dispatchEffect]
    exact Task.ensures_bind fun _ => Task.ensures_pure fun _ _ => rfl
  | restrict spec =>
    rw [dispatchEffect]
    split
    · refine Task.ensures_pure ?_
      dsimp only
      split_ifs <;> exact fun _ _ => rfl
    · exact Task.ensures_pure fun _ _ => rfl
  | fieldOp path stages =>
    rw [dispatchEffect]
    exact frame_dispatchFieldOp path stages fallbackSource s
  | sequential es ih =>
    rw [dispatchEffect]
    exact frame_dispatchList ih fallbackSource s
  | parallel es _ =>
    rw [dispatchEffect]
    split
    · exact Task.ensures_pure fun _ _ => rfl
    · exact Task.ensures_bind fun runs => frame_joinBranches es fallbackSource runs s
  | when condition body source ih =>
    rw [dispatchEffect]
    split
    · exact Task.ensures_pure fun _ _ => rfl
    · exact Task.ensures_pure fun _ _ => rfl
    · exact frame_dispatchList ih source _
  | pdp call onAllow onDeny ihAllow ihDeny =>
    rw [dispatchEffect]
    refine Task.ensures_bind fun answer => ?_
    rcases answer with e | ⟨_ | ⟨reason, source⟩, diagnostics⟩
    · exact Task.ensures_pure fun _ _ => rfl
    · exact frame_dispatchList ihAllow fallbackSource _
    · refine (frame_dispatchList ihDeny fallbackSource _).bind fun r hr => ?_
      split <;> exact Task.ensures_pure hr

theorem frame_runPhase (effects : List Effect) (s : Walk) :
    (runPhase env phase effects s).Ensures fun r => Frame phase s r.2 ∧
      (r.1.argsModified, r.1.resultModified) = (r.2.argsModified, r.2.resultModified) := by
  induction effects generalizing s with
  | nil =>
    rw [runPhase]
    exact Task.ensures_pure ⟨fun _ _ => rfl, rfl⟩
  | cons e es ih =>
    rw [runPhase]
    refine (frame_dispatchEffect e _ s).bind fun r hr => ?_
    split
    · exact (ih _).mono fun r' hr' => ⟨hr.trans hr'.1, hr'.2⟩
    · exact Task.ensures_pure ⟨hr, rfl⟩
    · exact Task.ensures_pure ⟨hr, rfl⟩

end Walks

section Routes

variable [Library] {W : Type} {env : Invokers W}

theorem frame_fieldRuleAt {start : FieldRun} (bag : AttributeBag) (phase : DispatchPhase)
    (rule : FieldRule) (path : List String) (run : FieldRun) (h : start.Frame run) :
    (fieldRuleAt env bag phase rule path run).Ensures fun r => start.Frame r.1 := by
  rw [fieldRuleAt]
  split
  · exact Task.ensures_pure h
  · refine Task.ensures_bind fun eval => ?_
    dsimp only
    split
    · exact Task.ensures_pure h
    · exact Task.ensures_pure (h.trans (.write (reports_setConcrete _ _)))
    · exact Task.ensures_pure (h.trans (.write (reports_removeConcrete _)))
    · exact Task.ensures_pure h

theorem frame_fieldRules (bag : AttributeBag) (phase : DispatchPhase) (side : String)
    (rules : List FieldRule) (run : FieldRun) :
    (Task.forEach (fieldRule env bag phase side) rules run).Ensures fun r => run.Frame r.1 := by
  refine Task.ensures_forEach (P := fun r => run.Frame r.1) (fun rule run' h => ?_) rules
    fun h => ⟨h, rfl⟩
  rw [fieldRule]
  split
  · exact Task.ensures_pure h
  · exact Task.ensures_forEach (P := fun r => run.Frame r.1) (frame_fieldRuleAt bag phase rule) _ h

structure RouteOutcome.Frame (payload : RoutePayload) (out : RouteOutcome) : Prop where
  args : out.decision.argsModified = false → out.payload.args = payload.args
  result : out.decision.resultModified = false → out.payload.result = payload.result

variable (route : CompiledRoute) (bag : AttributeBag) (payload : RoutePayload)

theorem frame_evaluatePre : (evaluatePre env route bag payload).Ensures fun out =>
    out.Frame payload ∧ out.payload.result = payload.result := by
  refine (frame_fieldRules bag .pre "args" route.args _).bind fun r hr => ?_
  obtain ⟨run, denied⟩ := r
  cases denied with
  | some deny => exact Task.ensures_pure ⟨⟨fun h => (hr h).2, fun _ => rfl⟩, rfl⟩
  | none =>
    refine (frame_runPhase route.preInvocation _).bind fun r hphase => ?_
    obtain ⟨hframe, hflags⟩ := hphase
    have hresult := congrArg Prod.fst (hframe .result (.inr nofun))
    refine Task.ensures_pure ⟨⟨fun h => ?_, fun _ => hresult⟩, hresult⟩
    obtain ⟨hrun, heval⟩ := Bool.or_eq_false_iff.1 h
    have hside := hframe .args (.inl ((congrArg Prod.fst hflags).symm.trans heval))
    exact (Option.some.inj (congrArg Prod.fst hside)).trans (hr hrun).2

theorem frame_evaluatePost : (evaluatePost env route bag payload).Ensures fun out =>
    out.Frame payload ∧ out.payload.args = payload.args := by
  -- what is left of the half once the fields are done
  have heffects : ∀ after : RoutePayload,
      (evaluateEffects env route.postInvocation bag .post after).Ensures fun r =>
        r.2.payload.args = after.args ∧
          (r.1.resultModified = false → r.2.payload.result = after.result) := by
    refine fun after => (frame_runPhase route.postInvocation _).mono fun r hphase => ?_
    obtain ⟨hframe, hflags⟩ := hphase
    refine ⟨Option.some.inj (congrArg Prod.fst (hframe .args (.inr nofun))), fun h => ?_⟩
    exact congrArg Prod.fst (hframe .result (.inl ((congrArg Prod.snd hflags).symm.trans h)))
  rw [evaluatePost]
  cases hresult : payload.result with
  | none =>
    refine (heffects _).bind fun r hr => Task.ensures_pure ⟨⟨fun _ => hr.1, fun h => ?_⟩, hr.1⟩
    exact (hr.2 h).trans hresult.symm
  | some result =>
    refine (frame_fieldRules bag .post "result" route.result _).bind fun r hrun => ?_
    obtain ⟨run, denied⟩ := r
    have hroot : run.modified = false → some run.root = payload.result := by
      intro h
      rw [(hrun h).2, hresult]
    cases denied with
    | some deny => exact Task.ensures_pure ⟨⟨fun _ => rfl, hroot⟩, rfl⟩
    | none =>
      refine (heffects _).bind fun r hr => Task.ensures_pure ⟨⟨fun _ => hr.1, fun h => ?_⟩, hr.1⟩
      obtain ⟨hmodified, heval⟩ := Bool.or_eq_false_iff.1 h
      exact (hr.2 heval).trans (hroot hmodified)

/-- Whatever the invokers answer and however the route ends, a side that is not reported as modified
is as it was. -/
theorem evaluateRoute_frame (env : Invokers W) :
    (evaluateRoute env route bag payload).Ensures fun out => out.Frame payload := by
  refine (frame_evaluatePre route bag payload).bind fun pre hpre => ?_
  split_ifs
  · exact Task.ensures_pure hpre.1
  · refine (frame_evaluatePost route pre.bag pre.payload).bind fun post hpost => ?_
    exact Task.ensures_pure ⟨fun h => hpost.2.trans (hpre.1.args h),
      fun h => (hpost.1.result h).trans hpre.2⟩

end Routes

end PraxisPolicy
