import PraxisPolicy.JsonPositions
import PraxisPolicy.RoutePhases

/-!
# Recursive redaction is complete

A rule on `**.k` is expanded on the original payload and then written path by path; each write puts
the marker at its position and exposes nothing elsewhere.
-/

namespace PraxisPolicy

open JsonValues TextScanning WorldTasks

section Folds

variable {σ α : Type} {f : σ → α → Option σ}

/-- A fold in `Option` that succeeds ran every element, between two states that the fold connects.
-/
theorem foldlM_some_ran {R : σ → σ → Prop} (hrefl : ∀ s, R s s)
    (htrans : ∀ s₁ s₂ s₃, R s₁ s₂ → R s₂ s₃ → R s₁ s₃)
    (hstep : ∀ s a s', f s a = some s' → R s s') {l : List α} {s s' : σ}
    (h : l.foldlM f s = some s') :
    R s s' ∧ ∀ a ∈ l, ∃ s₁ s₂, R s s₁ ∧ f s₁ a = some s₂ ∧ R s₂ s' := by
  induction l generalizing s with
  | nil =>
    obtain rfl : s = s' := by simpa using h
    exact ⟨hrefl s, by simp⟩
  | cons a l ih =>
    rw [List.foldlM_cons] at h
    obtain ⟨s₁, ha, hrest⟩ := Option.bind_eq_some_iff.mp h
    obtain ⟨hconn, hran⟩ := ih hrest
    have hfirst := hstep s a s₁ ha
    refine ⟨htrans _ _ _ hfirst hconn, List.forall_mem_cons.mpr ⟨?_, fun b hb => ?_⟩⟩
    · exact ⟨s, s₁, hrefl s, ha, hconn⟩
    · obtain ⟨s₂, s₃, h₂, hb', h₃⟩ := hran b hb
      exact ⟨s₂, s₃, htrans _ _ _ hfirst h₂, hb', h₃⟩

theorem length_le_of_foldlM {measure : σ → ℕ}
    (hstep : ∀ s a s', f s a = some s' → measure s' < measure s) {l : List α} {s s' : σ}
    (h : l.foldlM f s = some s') : l.length ≤ measure s := by
  induction l generalizing s with
  | nil => simp
  | cons a l ih =>
    rw [List.foldlM_cons] at h
    obtain ⟨s₁, ha, hrest⟩ := Option.bind_eq_some_iff.mp h
    have hlen := ih hrest
    have hlt := hstep s a s₁ ha
    rw [List.length_cons]
    omega

end Folds

variable [Library]

section Walk

structure Advances (st st' : WalkState) : Prop where
  budget_le : st'.budget ≤ st.budget
  keeps : ∀ p ∈ st.out, p ∈ st'.out

omit [Library] in
theorem Advances.refl (st : WalkState) : Advances st st := ⟨le_rfl, fun _ h => h⟩

omit [Library] in
theorem Advances.trans {a b c : WalkState} (h : Advances a b) (h' : Advances b c) :
    Advances a c :=
  ⟨h'.budget_le.trans h.budget_le, fun p hp => h'.keeps p (h.keeps p hp)⟩

omit [Library] in
theorem Advances.lift {st st' : WalkState}
    (h : Advances { st with budget := st.budget - 1 } st') : Advances st st' :=
  ⟨h.budget_le.trans (Nat.sub_le _ _), h.keeps⟩

variable {room : ℕ} {value : Json} {here : List String} {st st' : WalkState} {segs : List String}

theorem walkRedaction_advances (h : walkRedaction room value segs here st = some st') :
    st.budget ≠ 0 ∧ Advances { st with budget := st.budget - 1 } st' := by
  induction room generalizing value segs here st st' with
  | zero => simp [walkRedaction] at h
  | succ room ih =>
    have hstep : ∀ (segs : List String) s (e : String × Json) s',
        walkRedaction room e.2 segs (here ++ [e.1]) s = some s' → Advances s s' :=
      fun _ _ _ _ hs => (ih hs).2.lift
    have hfold : ∀ (segs : List String) (l : List (String × Json)) s s',
        l.foldlM (fun st e => walkRedaction room e.2 segs (here ++ [e.1]) st) s = some s' →
        Advances s s' := fun segs l s s' hs =>
      (foldlM_some_ran Advances.refl (fun _ _ _ => Advances.trans) (hstep segs) hs).1
    rw [walkRedaction] at h
    split at h
    · cases h
    · rename_i hopen
      refine ⟨fun h0 => hopen (.inl h0), ?_⟩
      cases segs with
      | nil =>
        simp only at h
        split at h
        · cases h
        · obtain rfl := Option.some.inj h
          exact ⟨le_rfl, fun p hp => List.mem_append_left _ hp⟩
      | cons seg rest =>
        simp only at h
        split at h
        · obtain ⟨st₁, hhere, hbelow⟩ := Option.bind_eq_some_iff.mp h
          exact (ih hhere).2.lift.trans (hfold _ _ _ _ hbelow)
        · cases value with
          | object members => exact hfold _ _ _ _ h
          | array items =>
            simp only at h
            split at h
            · split at h
              · exact hstep rest _ (seg, _) _ h
              · exact Option.some.inj h ▸ Advances.refl _
            · exact hfold _ _ _ _ h
          | null => exact Option.some.inj h ▸ Advances.refl _
          | bool => exact Option.some.inj h ▸ Advances.refl _
          | number => exact Option.some.inj h ▸ Advances.refl _
          | string => exact Option.some.inj h ▸ Advances.refl _

theorem walkRedaction_children {l : List (String × Json)}
    (h : l.foldlM (fun st e => walkRedaction room e.2 segs (here ++ [e.1]) st) st = some st') :
    l.length ≤ st.budget ∧ Advances st st' ∧
      ∀ e ∈ l, ∃ st₁ st₂, Advances st st₁ ∧
        walkRedaction room e.2 segs (here ++ [e.1]) st₁ = some st₂ ∧ Advances st₂ st' := by
  refine ⟨length_le_of_foldlM (fun s e s' hs => ?_) h, foldlM_some_ran Advances.refl
    (fun _ _ _ => Advances.trans) (fun _ _ _ hs => (walkRedaction_advances hs).2.lift) h⟩
  obtain ⟨hpos, hadv⟩ := walkRedaction_advances hs
  have hle : s'.budget ≤ s.budget - 1 := hadv.budget_le
  omega

theorem walkRedaction_emits (h : walkRedaction room value [] here st = some st') :
    here ∈ st'.out := by
  cases room with
  | zero => simp [walkRedaction] at h
  | succ room =>
    rw [walkRedaction] at h
    split at h
    · cases h
    · simp only at h
      split at h
      · cases h
      · obtain rfl := Option.some.inj h
        simp

theorem walkRedaction_anywhere {rest : List String}
    (h : walkRedaction (room + 1) value ("**" :: rest) here st = some st') :
    ∃ st₁, walkRedaction room value rest here { st with budget := st.budget - 1 } = some st₁ ∧
      value.children.foldlM
        (fun st e => walkRedaction room e.2 ("**" :: rest) (here ++ [e.1]) st) st₁ = some st' := by
  rw [walkRedaction] at h
  split at h
  · cases h
  · exact Option.bind_eq_some_iff.mp (by simpa using h)

theorem walkRedaction_key {members : List (String × Json)} {k key : String} {x : Json}
    (hmem : (key, x) ∈ members) (hkey : keyMatches key k = true)
    (h : walkRedaction room (.object members) [k] here st = some st') :
    here ++ [key] ∈ st'.out := by
  cases room with
  | zero => simp [walkRedaction] at h
  | succ room =>
    by_cases hk : k = "**"
    · -- `**.**` takes every descendant, so the child is found by its own walk
      subst hk
      obtain ⟨st₁, -, hbelow⟩ := walkRedaction_anywhere h
      obtain ⟨st₂, st₃, -, hwalk, hadv⟩ := (walkRedaction_children hbelow).2.2 (key, x) hmem
      cases room with
      | zero => simp [walkRedaction] at hwalk
      | succ room =>
        obtain ⟨st₄, hemit, hrest⟩ := walkRedaction_anywhere hwalk
        exact hadv.keeps _ ((walkRedaction_children hrest).2.1.keeps _ (walkRedaction_emits hemit))
    · rw [walkRedaction] at h
      split at h
      · cases h
      · simp only [hk, if_false] at h
        have hmatch : (key, x) ∈ members.filter fun e => keyMatches e.1 k :=
          List.mem_filter.mpr ⟨hmem, hkey⟩
        obtain ⟨st₂, st₃, -, hwalk, hadv⟩ := (walkRedaction_children h).2.2 (key, x) hmatch
        exact hadv.keeps _ (walkRedaction_emits hwalk)

omit [Library] in
theorem exists_child_of_follow {value x : Json} {s : Step} {π : List Step}
    (h : follow value (s :: π) = some x) :
    ∃ child, (s.text, child) ∈ value.children ∧ follow child π = some x ∧
      (value.children.length < 2 ^ 64 → s.Fits) := by
  rcases follow_cons_cases h with ⟨name, members, child, rfl, rfl, hchild, hrest⟩ |
    ⟨i, items, child, rfl, rfl, hchild, hrest⟩
  · exact ⟨child, mem_of_lookup hchild, hrest, fun _ => trivial⟩
  · obtain ⟨hlt, hget⟩ := List.getElem?_eq_some_iff.mp hchild
    refine ⟨child, ?_, hrest, fun hlen => ?_⟩
    · exact List.mem_map.mpr ⟨(child, i), List.mk_mem_zipIdx_iff_getElem?.mpr hchild, rfl⟩
    · exact hlt.trans (by simpa [Json.children] using hlen)

/-- Within its bounds a walk for `**.k` finds every position that ends in a matching key. -/
theorem walkRedaction_complete {k : String}
    (h : walkRedaction room value ["**", k] here st = some st') (hbudget : st.budget < 2 ^ 64)
    {π : List Step} {key : String} {x : Json} (hkey : keyMatches key k = true)
    (hx : follow value (π ++ [.key key]) = some x) :
    here ++ (π ++ [Step.key key]).map Step.text ∈ st'.out ∧
      ∀ s ∈ π ++ [Step.key key], s.Fits := by
  induction room generalizing value here st st' π with
  | zero => simp [walkRedaction] at h
  | succ room ih =>
    obtain ⟨st₁, hhere, hbelow⟩ := walkRedaction_anywhere h
    obtain ⟨hlen, hadv, hran⟩ := walkRedaction_children hbelow
    cases π with
    | nil =>
      refine ⟨hadv.keeps _ ?_, by simp [Step.Fits]⟩
      cases value with
      | object members =>
        obtain ⟨child, hchild, -⟩ := Option.bind_eq_some_iff.mp hx
        exact walkRedaction_key (mem_of_lookup hchild) hkey hhere
      | null | bool _ | number _ | string _ | array _ => simp [follow] at hx
    | cons s π =>
      obtain ⟨child, hmem, hrest, hfits⟩ := exists_child_of_follow hx
      obtain ⟨st₂, st₃, hadv₂, hwalk, hadv₃⟩ := hran _ hmem
      have hleft : st₁.budget < 2 ^ 64 :=
        ((walkRedaction_advances hhere).2.lift.lift.budget_le).trans_lt hbudget
      obtain ⟨hfound, hall⟩ := ih hwalk (hadv₂.budget_le.trans_lt hleft) hrest
      refine ⟨hadv₃.keeps _ (by simpa using hfound), List.forall_mem_cons.mpr ⟨?_, hall⟩⟩
      exact hfits (hlen.trans_lt hleft)

end Walk

section Writes

def redactOne (root : Json) (path : List String) : Json :=
  match getConcrete root path with
  | none => root
  | some _ => (setConcrete root path redactionMarker).1

def Exposes (root : Json) (π : List Step) : Prop :=
  ∃ x, follow root π = some x ∧ x ≠ redactionMarker

variable {π : List Step} {root : Json}

omit [Library] in
theorem Exposes.of_redactOne {path : List String}
    (h : Exposes (redactOne root path) π) : Exposes root π := by
  unfold redactOne at h
  split at h
  · exact h
  · rename_i y hy
    obtain ⟨x, hx, hne⟩ := h
    rw [setConcrete_of_getConcrete hy] at hx
    obtain ⟨z, hzne, hz⟩ := follow_replaceAt hx hne
    exact ⟨z, hz, hzne⟩

variable {paths : List (List String)}

omit [Library] in
theorem Exposes.of_foldl_redactOne
    (h : Exposes (paths.foldl redactOne root) π) : Exposes root π := by
  induction paths generalizing root with
  | nil => exact h
  | cons path paths ih => exact (ih h).of_redactOne

omit [Library] in
theorem not_exposes_redactOne (hfits : ∀ s ∈ π, s.Fits) :
    ¬ Exposes (redactOne root (π.map Step.text)) π := by
  intro h
  obtain ⟨y, hy, -⟩ := h.of_redactOne
  have hread := getConcrete_text hfits hy
  obtain ⟨x, hx, hne⟩ := h
  rw [redactOne, hread] at hx
  simp only at hx
  rw [setConcrete_of_getConcrete hread, follow_replaceAt_text hfits hy] at hx
  exact hne (Option.some.inj hx).symm

omit [Library] in
theorem not_exposes_foldl_redactOne (hfits : ∀ s ∈ π, s.Fits) (hmem : π.map Step.text ∈ paths) :
    ¬ Exposes (paths.foldl redactOne root) π := by
  obtain ⟨before, after, rfl⟩ := List.append_of_mem hmem
  rw [List.foldl_append, List.foldl_cons]
  exact fun h => not_exposes_redactOne hfits h.of_foldl_redactOne

end Writes

section Routes

/-- No matching key, at any depth, holds anything but the marker. -/
def Redacted (k : String) (v : Json) : Prop :=
  ∀ members, Json.Within (.object members) v →
    ∀ key x, members.lookup key = some x → keyMatches key k = true → x = redactionMarker

omit [Library] in
theorem follow_append {v w : Json} {π : List Step} (h : follow v π = some w) (ρ : List Step) :
    follow v (π ++ ρ) = follow w ρ := by
  induction π generalizing v with
  | nil =>
    obtain rfl : v = w := by simpa using h
    rfl
  | cons s π ih =>
    rcases follow_cons_cases h with ⟨name, members, child, rfl, rfl, hchild, hrest⟩ |
      ⟨i, items, child, rfl, rfl, hchild, hrest⟩
    · simp [follow, hchild, ih hrest]
    · simp [follow, hchild, ih hrest]

variable {k : String}

omit [Library] in
theorem segments_anywhere (hk : containsDot k = false) :
    segments ("**." ++ k) = ["**", k] := by
  have hjoin : ("**." ++ k).toList = ['.'].intercalate [['*', '*'], k.toList] := by
    simp [List.intercalate]
  have hdot : ∀ seg ∈ [['*', '*'], k.toList], '.' ∉ seg := by
    simpa [containsDot] using hk
  rw [segments, hjoin, List.splitOn_intercalate _ hdot (by simp)]
  simp

variable {paths : List (List String)}

variable {W : Type}

theorem yields_fieldRuleAt_redact (env : Invokers W) (bag : AttributeBag) (phase : DispatchPhase)
    (field source : String) (paths : List (List String)) (run : FieldRun) :
    (Task.forEach (fieldRuleAt env bag phase ⟨field, [.redact none], source⟩) paths run).Yields
      fun (run', denied) => denied = none ∧ run'.root = paths.foldl redactOne run.root := by
  induction paths generalizing run with
  | nil => exact Task.yields_pure ⟨rfl, rfl⟩
  | cons path paths ih =>
    have hstep : (fieldRuleAt env bag phase ⟨field, [.redact none], source⟩ path run).Yields
        fun (run', denied) => denied = none ∧ run'.root = redactOne run.root path := by
      rw [fieldRuleAt, redactOne]
      cases getConcrete run.root path with
      | none => exact Task.yields_pure ⟨rfl, rfl⟩
      | some current =>
        have hpipe : evaluatePipeline env [.redact none] current bag field phase =
            pure ⟨.replace redactionMarker, [], []⟩ := rfl
        refine Task.Yields.bind (hpipe ▸ Task.yields_pure rfl) ?_
        rintro _ rfl
        exact Task.yields_pure ⟨rfl, rfl⟩
    refine hstep.bind ?_
    rintro ⟨run', denied⟩ ⟨rfl, hroot⟩
    rw [List.foldl_cons, ← hroot]
    exact ih run'

theorem yields_fieldRules_redact (hk : containsDot k = false)
    (env : Invokers W) (bag : AttributeBag) (phase : DispatchPhase) (side source : String)
    (run : FieldRun) :
    (Task.forEach (fieldRule env bag phase side) [⟨"**." ++ k, [.redact none], source⟩] run).Yields
      fun (run', denied) => (∃ reason src, denied = some (.deny reason src)) ∨
        denied = none ∧ Redacted k run'.root := by
  rw [Task.forEach_singleton, fieldRule]
  cases hpaths : expandForPipeline run.root ("**." ++ k) [.redact none] with
  | none => exact Task.yields_pure (.inl ⟨_, _, rfl⟩)
  | some paths =>
    dsimp only
    rw [← Task.bind_return (Task.forEach _ paths run)]
    refine (yields_fieldRuleAt_redact env bag phase _ source paths run).bind ?_
    rintro ⟨run', denied⟩ ⟨rfl, hroot⟩
    refine Task.yields_pure (.inr ⟨rfl, ?_⟩)
    rw [hroot]
    intro members hwithin key y hy hkey
    obtain ⟨π, hπ⟩ := exists_follow_of_within hwithin
    by_contra hne
    have hexp : Exposes _ (π ++ [.key key]) :=
      ⟨y, (follow_append hπ _).trans (by simp [follow, hy]), hne⟩
    obtain ⟨x, hx, -⟩ := hexp.of_foldl_redactOne
    rw [expandForPipeline, if_pos (by rfl), segments_anywhere hk] at hpaths
    obtain ⟨st, hwalk, rfl⟩ := Option.map_eq_some_iff.mp hpaths
    have hbudget : (if ["**", k].contains "**" then maxRedactionWalkStates else 2 ^ 64 - 1)
        < 2 ^ 64 := by
      split <;> decide
    obtain ⟨hfound, hfits⟩ := walkRedaction_complete hwalk hbudget hkey hx
    exact not_exposes_foldl_redactOne hfits
      (mem_destutter_ne.2 ((List.mem_insertionSort _).mpr hfound)) hexp

/-- A rule that redacts `**.k`, alone on its side, ends in a deny or in a payload without a matching
key in clear. -/
theorem redaction_complete (k : String) (hk : containsDot k = false) (source : String)
    (env : Invokers W) (route : CompiledRoute) (bag : AttributeBag) (payload : RoutePayload) :
    (route.args = [⟨"**." ++ k, [.redact none], source⟩] → route.preInvocation = [] →
      (evaluatePre env route bag payload).Yields fun outcome =>
        (∃ reason src, outcome.decision.decision = .deny reason src) ∨
        outcome.decision.decision = .allow ∧ outcome.decision.pending = none ∧
          Redacted k outcome.payload.args) ∧
    (route.result = [⟨"**." ++ k, [.redact none], source⟩] → route.postInvocation = [] →
      (evaluatePost env route bag payload).Yields fun outcome =>
        (∃ reason src, outcome.decision.decision = .deny reason src) ∨
        outcome.decision.decision = .allow ∧ outcome.decision.pending = none ∧
          ∀ result ∈ outcome.payload.result, Redacted k result) := by
  constructor
  · intro hargs hpre
    rw [evaluatePre, hargs, hpre]
    refine (yields_fieldRules_redact hk env bag .pre "args" source _).bind ?_
    rintro ⟨run, denied⟩ (⟨reason, src, rfl⟩ | ⟨rfl, hclean⟩)
    · exact Task.yields_pure (.inl ⟨reason, src, rfl⟩)
    · exact Task.yields_pure (.inr ⟨rfl, rfl, hclean⟩)
  · intro hresult hpost
    rw [evaluatePost, hresult, hpost]
    cases hpayload : payload.result with
    | none => exact Task.yields_pure (.inr ⟨rfl, rfl, by simp⟩)
    | some result =>
      refine (yields_fieldRules_redact hk env bag .post "result" source _).bind ?_
      rintro ⟨run, denied⟩ (⟨reason, src, rfl⟩ | ⟨rfl, hclean⟩)
      · exact Task.yields_pure (.inl ⟨reason, src, rfl⟩)
      · exact Task.yields_pure (.inr ⟨rfl, rfl, by simpa [hpayload] using hclean⟩)

end Routes

section Cases

omit [Library]

def hideRoute (k : String) : CompiledRoute :=
  ⟨"tool:lookup", [⟨"**." ++ k, [.redact none], "args"⟩], [],
    [⟨"**." ++ k, [.redact none], "result"⟩], []⟩

def argsPayload (args : Json) : RoutePayload := ⟨args, none, StructuredInput.default⟩

/-- A key with a dot cannot be addressed. -/
theorem evaluatePre_leaves_dottedKey :
    ∃ outcome, @evaluatePre Library.ascii Unit (pendingInvokers .allow) (hideRoute "card.number")
        AttributeBag.empty (argsPayload (.object [("card.number", .string "4111")])) () =
        (.ok outcome, ()) ∧
      outcome.decision.decision = .allow ∧ outcome.decision.pending = none ∧
      ¬ @Redacted Library.ascii "card.number" outcome.payload.args := by
  refine ⟨_, rfl, rfl, rfl, fun h => ?_⟩
  have hclear := h _ (.refl _) "card.number" (.string "4111") rfl rfl
  simp [redactionMarker] at hclear

def nestedTokens : Json :=
  .object [("items", .array [.object [("Token", .object [("token", .string "t-1")])]])]

theorem redaction_complete_nestedTokens :
    ∃ outcome, @evaluatePre Library.ascii Unit (pendingInvokers .allow) (hideRoute "token")
        AttributeBag.empty (argsPayload nestedTokens) () = (.ok outcome, ()) ∧
      outcome.decision.decision = .allow ∧ @Redacted Library.ascii "token" outcome.payload.args := by
  have hends : ∃ outcome, @evaluatePre Library.ascii Unit (pendingInvokers .allow)
      (hideRoute "token") AttributeBag.empty (argsPayload nestedTokens) () = (.ok outcome, ()) ∧
      outcome.decision.decision = .allow := ⟨_, rfl, rfl⟩
  obtain ⟨outcome, hrun, hallow⟩ := hends
  refine ⟨outcome, hrun, hallow, ?_⟩
  obtain ⟨_, _, hrun', hcase⟩ := (@redaction_complete Library.ascii Unit "token" rfl "args"
    (pendingInvokers .allow) (hideRoute "token") AttributeBag.empty
    (argsPayload nestedTokens)).1 rfl rfl ()
  cases hrun.symm.trans hrun'
  rcases hcase with ⟨reason, src, hdeny⟩ | ⟨-, -, hclean⟩
  · simp [hallow] at hdeny
  · exact hclean

end Cases

end PraxisPolicy
